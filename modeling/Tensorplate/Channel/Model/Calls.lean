import Tensorplate.Channel.Model.JobChannel

/-!
# The calls of a job channel

What the session and the job bridge call, each in the part that runs under
the mutex. Two of them wait: an exchange for its answer and a health call
for the probe's, so each has a second part for when it runs again. What the
buffer manager and the frame encoder say is an argument.
-/

namespace Tensorplate

namespace Channel

open Lib

namespace JobChannel

/-! ## The session's side -/

/-- `start`. `isOpen` says whether the socket is, `threads` whether its two
threads could be created; a start that fails leaves the channel as it was. -/
def start (c : JobChannel) (isOpen : Bool) (jobClasses : List JobClass) (threads : Bool) :
    JobChannel × Except Error Unit :=
  if c.retired then (c, .error (refusal .internal "job_channel_retired"))
  else if c.phase ≠ .idle ∧ c.phase ≠ .stopped then
    (c, .error ⟨.internal, "job channel already started", none⟩)
  else if !isOpen then (c, .error (refusal .internal "socket_closed"))
  else if jobClasses.isEmpty then (c, .error (refusal .unsupported "job_class_unsupported"))
  else if !threads then
    (c, .error (Error.make .internal "job channel threads could not start"
      "job_channel_thread_unavailable"))
  else ({ c with jobClasses := jobClasses, phase := .started, connection := c.connection + 1 }, .ok ())

/-- `admit_jobs`. -/
def admitJobs (c : JobChannel) : JobChannel :=
  if c.phase = .started then { c with phase := .admitting } else c

/-- `close_admission`. -/
def closeAdmission (c : JobChannel) : JobChannel :=
  if c.phase = .started ∨ c.phase = .admitting then { c with phase := .closing } else c

/-- `retire`. -/
def retire (c : JobChannel) : JobChannel := { c with retired := true }

/-- `exchange`, up to its wait: the ticket of the wait. -/
def exchange (c : JobChannel) (messageId : String) (encoded : Option Error) :
    JobChannel × Except Error ℕ :=
  match encoded with
  | some error => (c, .error error)
  | none =>
    if c.phase = .idle ∨ c.phase = .stopped then
      (c, .error ⟨.notReady, "job channel not started", none⟩)
    else match c.failure with
      | some failure => (c, .error failure)
      | none =>
        if c.unary.isSome then (c, .error ⟨.internal, "a sidecar exchange is already waiting", none⟩)
        else
          ({ c.queueLocked .exchange 0 with
              unary := some ⟨c.tickets, messageId⟩, tickets := c.tickets + 1 }, .ok c.tickets)

/-- `exchange`, when it runs again: its answer, or the end of its wait. -/
def exchangeWake (c : JobChannel) (ticket : ℕ) : JobChannel × Except Error SidecarFrame :=
  match c.outcomes.lookup ticket with
  | some outcome => ({ c with outcomes := c.outcomes.filter fun o => o.1 ≠ ticket }, outcome)
  | none =>
    ({ c with unary := none }.unqueueLocked .exchange 0,
      .error ⟨.timeout, "deadline elapsed waiting for the sidecar's response", none⟩)

/-- The first locked part of `stop`; `none` when the channel is not
started. -/
def stopBegin (c : JobChannel) (reason : String) : Option JobChannel :=
  if c.phase = .idle ∨ c.phase = .stopped then none
  else some { c with stopReason := reason, stopping := true }

/-! ## The job side -/

/-- `set_event_sink`. -/
def setEventSink (c : JobChannel) (isNull : Bool) : JobChannel × Except Error Unit :=
  if isNull then (c, .error (refusal .configInvalid "event_sink_null"))
  else if c.sink || c.sinkDetached then
    (c, .error (refusal .configInvalid "event_sink_already_set"))
  else ({ c with sink := true }, .ok ())

/-- `submit`. `window` says whether the buffer manager holds the request's
window, `encoded` what the frame encoder refuses. -/
def submit (c : JobChannel) (s : SubmittedJob) (window : Bool) (encoded : Option Error) :
    JobChannel × Except Error Unit :=
  if !c.sink || c.sinkDetached then (c, .error (refusal .notReady "event_sink_missing"))
  else match c.notRunning with
    | some refused => (c, .error refused)
    | none =>
      if s.jobClass ∉ c.jobClasses then
        (c, .error (refusal .unsupported "job_class_unsupported"))
      else if c.releasing.contains s.identity.sessionKey ||
          c.releasedSessions.contains s.identity.sessionKey then
        (c, .error (refusal .notReady "session_releasing"))
      else if c.jobs.contains s.identity.jobId then
        (c, .error (refusal .configInvalid "duplicate_job_id"))
      else if c.jobs.size ≥ kMaxOpenJobs then
        (c, .error (refusal .resourceExhausted "job_capacity_exhausted"))
      else
        let id := messageId c.messages
        let c := { c with messages := c.messages + 1 }
        match encodeJobSubmit s id with
        | some error => (c, .error error)
        | none =>
          if !window then (c, .error (refusal .configInvalid "pcm_buffer_invalid"))
          else match encoded with
            | some error => (c, .error error)
            | none =>
              ({ c with
                  messageJobs := c.messageJobs ++ [(id, s.identity.jobId)]
                  jobs := c.jobs.insert s.identity.jobId
                    ⟨s.identity, JobEventSequence.ofRequest s, id, "", c.serials⟩ }.queueLocked
                .submit s.identity.jobId, .ok ())

/-- `cancel`. -/
def cancel (c : JobChannel) (jobId : ℕ) (encoded : Option Error) : JobChannel × Except Error Unit :=
  match c.jobs[jobId]? with
  | none => (c, .error (refusal .notReady "unknown_job"))
  | some job =>
    if c.sinkDetached then (c, .error (refusal .notReady "unknown_job"))
    else if job.sequence.terminal || job.cancelMessageId ≠ "" then (c, .ok ())
    else
      let id := messageId c.messages
      let c := { c with messages := c.messages + 1 }
      match encodeJobCancel job.identity id with
      | some error => (c, .error error)
      | none =>
        match encoded with
        | some error => (c, .error error)
        | none =>
          ({ c with
              messageJobs := c.messageJobs ++ [(id, jobId)]
              jobs := c.jobs.insert jobId { job with
                sequence := job.sequence.noteCancelRequested
                cancelMessageId := id } }.queueLocked .cancel jobId, .ok ())

/-- The jobs of a session that is released count as cancelled. -/
def noteSession (key : ℕ) (job : Job) : Job :=
  if job.identity.sessionKey = key then
    { job with sequence := job.sequence.noteCancelRequested }
  else job

/-- `release_session`. -/
def releaseSession (c : JobChannel) (key generation : ℕ) (encoded : Option Error) :
    JobChannel × Except Error Unit :=
  if !c.sink || c.sinkDetached then (c, .error (refusal .notReady "event_sink_missing"))
  else if c.retired then (c, .error (refusal .unavailable "backend_unavailable"))
  else if !c.live then
    -- the caller takes the session as released and never submits its key again
    (if c.phase ≠ .idle ∧ (encodeSessionRelease key generation "unsent").isNone then
        { c with releasedSessions := c.releasedSessions.insert key }
      else c,
      .error (refusal .unavailable "backend_unavailable"))
  else if c.releasing.contains key || c.releasedSessions.contains key then (c, .ok ())
  else if c.releasing.size ≥ kMaxPendingSessionReleases then
    (c, .error (refusal .resourceExhausted "session_release_capacity_exhausted"))
  else
    let id := messageId c.messages
    let c := { c with messages := c.messages + 1 }
    match encodeSessionRelease key generation id with
    | some error => (c, .error error)
    | none =>
      match encoded with
      | some error => (c, .error error)
      | none =>
        ({ c with
            releasing := c.releasing.insert key ⟨generation, false⟩
            jobs := c.jobs.map fun _ job => noteSession key job }.queueLocked .release key, .ok ())

/-- `probe_health`, up to its wait: the probe it waits for. -/
def probeHealth (c : JobChannel) (encoded : Option Error) : JobChannel × Except Error ℕ :=
  match c.notRunning with
  | some refused => (c, .error refused)
  | none =>
    let wait (c : JobChannel) (i : ℕ) : JobChannel × Except Error ℕ :=
      ({ c with probes := c.probes.modify i fun p => { p with waiting := p.waiting + 1 } }, .ok i)
    match c.probe with
    | some i => wait c i
    | none =>
      let id := messageId c.messages
      let c := { c with messages := c.messages + 1 }
      match encodeHealthCheck id with
      | some error => (c, .error error)
      | none =>
        match encoded with
        | some error => (c, .error error)
        | none =>
          let c := c.queueLocked .probe 0
          wait { c with probes := c.probes ++ [{ messageId := id }], probe := some c.probes.length }
            c.probes.length

/-- `probe_health`, when it runs again. -/
def probeWake (c : JobChannel) (i : ℕ) : JobChannel × Except Error Unit :=
  let c := { c with probes := c.probes.modify i fun p => { p with waiting := p.waiting - 1 } }
  match c.notRunning with
  | some refused => (c, .error refused)
  | none => (c, ((c.probes[i]?).bind HealthProbe.outcome).getD
      (.error (refusal .timeout "health_timeout")))

end JobChannel

end Channel

end Tensorplate
