import Tensorplate.Channel.Model.Calls

/-!
# The threads of a job channel

One step is one stretch that runs under the mutex, or one sink call made
with it let go: the reader routes a frame or ends the connection, the
writer takes a frame, a caller calls, a stop begins or finishes. The
`history` records what the claims are about: submissions, cancels and
releases, the calls the sink was given, the buffers taken for chunks and
the frames that were written.
-/

namespace Tensorplate

namespace Channel

open Lib

/-- The reader's thread. -/
inductive Reader
  | off
  | reading
  /-- It has ended the connection and leaves its loop. -/
  | leaving
  deriving DecidableEq, Repr

/-- The writer's thread. -/
inductive Writer
  | off
  | waiting
  | writing (frame : QueuedFrame)
  deriving DecidableEq, Repr

/-- A call of `stop`. -/
inductive Stopper
  | idle
  | joining
  | delivering
  deriving DecidableEq, Repr

/-- What a frame says, before the PCM of a chunk is published. -/
inductive SidecarContent
  | unreadable
  | message (m : SidecarJobMessage)
  /-- A `job_progress`, with its number, or a `job_completed` that carries an
  audio chunk. -/
  | chunk (identity : JobIdentity) (progress : Option ℕ) (byteSize : ℕ)

namespace SidecarContent

/-- Only a chunk names a buffer. -/
def plain : SidecarContent → Bool
  | .message (.event e) => e.buffer.isNone
  | _ => true

end SidecarContent

/-- What the buffer manager makes of a chunk. -/
inductive Publication
  | unallocated (error : Error)
  /-- A buffer was allocated and its bytes cannot be had. -/
  | withoutData (error : Error)
  | unusable
  | usable

/-- `decode_sidecar_message`, with the buffer it published. -/
def decode (manager : Bool) (content : SidecarContent) (publication : Publication) (buffer : ℕ) :
    Option (SidecarJobMessage × Option ℕ) :=
  match content with
  | .unreadable => none
  | .message m => some (m, none)
  | .chunk identity progress byteSize =>
    if !manager then
      some (.fault identity.jobId (Error.make .notReady
        "no buffer manager to publish an audio chunk into" "backend_not_ready") none, none)
    else match publication with
      | .unallocated error => some (.fault identity.jobId error none, none)
      | .withoutData error => some (.fault identity.jobId error none, some buffer)
      | .unusable =>
        some (.fault identity.jobId (Error.make .internal
          "the published buffer cannot hold the chunk" "pcm_publisher_handle_unusable") none,
          some buffer)
      | .usable =>
        let result := JobResult.audioChunk buffer byteSize
        let body := match progress with
          | some n => JobEventBody.progress n result
          | none => .completed result
        some (.event ⟨identity, body⟩, some buffer)

/-- What happened, in its order. -/
inductive Happening
  | submitted (serial : ℕ) (job : SubmittedJob)
  | refused (serial : ℕ)
  | cancelled (serial : ℕ)
  /-- A release that returned success, and whether the key was new. -/
  | releaseAccepted (sessionKey generation : ℕ) (new : Bool)
  | called (delivery : Delivery)
  | allocated (buffer : ℕ)
  | freed (buffer : ℕ)
  | written (frame : QueuedFrame) (connection : ℕ)
  | stopped
  | detached

/-- The channel, its threads and its callers. -/
structure World where
  channel : JobChannel := {}
  reader : Reader := .off
  writer : Writer := .off
  stopper : Stopper := .idle
  /-- The batch of sink calls in flight: those still to be made, and how
  many it is. -/
  batch : Option (List Delivery × ℕ) := none
  /-- Exchanges that wait, by their tickets. -/
  exchanges : List ℕ := []
  /-- Health calls that wait, by their probes. -/
  probers : List ℕ := []
  buffers : ℕ := 0
  history : List Happening := []

/-- A step. -/
inductive Action
  | start (isOpen : Bool) (jobClasses : List JobClass) (threads : Bool)
  | admitJobs
  | closeAdmission
  | retire
  | setEventSink (isNull : Bool)
  | detachBegin
  | detachEnd
  | submit (job : SubmittedJob) (window : Bool) (encoded : Option Error)
  | cancel (jobId : ℕ) (encoded : Option Error)
  | releaseSession (sessionKey generation : ℕ) (encoded : Option Error)
  | exchange (messageId : String) (encoded : Option Error)
  | exchangeWake (ticket : ℕ)
  | probeHealth (encoded : Option Error)
  | probeWake (probe : ℕ)
  /-- Another part of the process draws a message id. -/
  | drawMessageId
  | readFrame (content : SidecarContent) (publication : Publication) (frame : SidecarFrame)
      (health : Except Error Unit)
  | readError (error : Error)
  | callSink
  | delivered
  | takeFrame
  | writerLeaves
  | writeDone
  | writeFailed (error : Error)
  | stopBegin (reason : String)
  | stopJoined
  | stopReturns

namespace World

/-- A batch is in flight where it is not empty. -/
def deliver (w : World) (out : List Delivery) : World :=
  if out.isEmpty then w else { w with batch := some (out, out.length) }

/-- What the channel decided is owed and then delivered. -/
def decide (w : World) (decided : JobChannel × List Delivery) : World :=
  let owed := decided.1.oweLocked decided.2
  { w with channel := owed.1 }.deliver owed.2

def log (w : World) (happened : List Happening) : World :=
  { w with history := w.history ++ happened }

/-- `end_connection`. -/
def endConnection (w : World) (error : Error) : World :=
  { w.decide (w.channel.endLocked error) with reader := .leaving }

/-- `route` of a message, with the buffer that was published for it. -/
def route (w : World) (message : SidecarJobMessage) (published : Option ℕ) (frame : SidecarFrame)
    (health : Except Error Unit) : World :=
  let (c, out, chunkDelivered) := w.channel.routeLocked message frame health
  let w := w.decide (c, out)
  match published with
  | none => w
  | some b =>
    -- no event the sink receives holds the chunk, so nobody else releases it
    { w with buffers := b + 1 }.log
      (.allocated b :: if chunkDelivered then [] else [.freed b])

/-- The serial of a job in the table. -/
def serialOf (w : World) (jobId : ℕ) : Option ℕ := (w.channel.jobs[jobId]?).map Job.serial

/-- **A step of the channel.** -/
def step (w : World) : Action → Option World
  | .start isOpen jobClasses threads =>
    if w.stopper ≠ .idle then none
    else
      let (c, result) := w.channel.start isOpen jobClasses threads
      match result with
      | .ok _ => some { w with channel := c, reader := .reading, writer := .waiting }
      | .error _ => some { w with channel := c }
  | .admitJobs => some { w with channel := w.channel.admitJobs }
  | .closeAdmission => some { w with channel := w.channel.closeAdmission }
  | .retire => some { w with channel := w.channel.retire }
  | .setEventSink isNull => some { w with channel := (w.channel.setEventSink isNull).1 }
  | .detachBegin => some { w with channel := { w.channel with sinkDetached := true } }
  | .detachEnd =>
    if w.channel.sinkDetached && w.batch.isNone then
      some ({ w with channel := { w.channel with sink := false } }.log [.detached])
    else none
  | .submit job window encoded =>
    let (c, result) := w.channel.submit job window encoded
    some ({ w with channel := { c with serials := c.serials + 1 } }.log
      (match result with
        | .ok _ => [.submitted w.channel.serials job]
        | .error _ => [.refused w.channel.serials]))
  | .cancel jobId encoded =>
    let (c, result) := w.channel.cancel jobId encoded
    some ({ w with channel := c }.log
      (match result with
        | .ok _ => (w.serialOf jobId).toList.map .cancelled
        | .error _ => []))
  | .releaseSession key generation encoded =>
    let (c, result) := w.channel.releaseSession key generation encoded
    some ({ w with channel := c }.log
      (match result with
        | .ok _ => [.releaseAccepted key generation
            !(w.channel.releasing.contains key || w.channel.releasedSessions.contains key)]
        | .error _ => []))
  | .exchange messageId encoded =>
    let (c, result) := w.channel.exchange messageId encoded
    match result with
    | .ok ticket => some { w with channel := c, exchanges := w.exchanges ++ [ticket] }
    | .error _ => some { w with channel := c }
  | .exchangeWake ticket =>
    if ticket ∈ w.exchanges then
      some { w with channel := (w.channel.exchangeWake ticket).1,
                    exchanges := w.exchanges.filter (· ≠ ticket) }
    else none
  | .probeHealth encoded =>
    let (c, result) := w.channel.probeHealth encoded
    match result with
    | .ok probe => some { w with channel := c, probers := w.probers ++ [probe] }
    | .error _ => some { w with channel := c }
  | .probeWake probe =>
    if probe ∈ w.probers then
      some { w with channel := (w.channel.probeWake probe).1, probers := w.probers.erase probe }
    else none
  | .drawMessageId =>
    some { w with channel := { w.channel with messages := w.channel.messages + 1 } }
  | .readFrame content publication frame health =>
    if w.reader ≠ .reading ∨ w.batch.isSome = true ∨ content.plain = false then none
    else match decode w.channel.manager content publication w.buffers with
      | none =>
        some (w.endConnection ⟨.inferenceFailed, "sidecar sent an unreadable header", none⟩)
      | some (message, published) => some (w.route message published frame health)
  | .readError error =>
    if w.reader ≠ .reading ∨ w.batch.isSome = true then none else some (w.endConnection error)
  | .callSink =>
    match w.batch with
    | some (call :: rest, n) => some ({ w with batch := some (rest, n) }.log [.called call])
    | _ => none
  | .delivered =>
    match w.batch with
    | some ([], n) =>
      some { w with batch := none, channel :=
        { w.channel with owedCallbacks := w.channel.owedCallbacks - n } }
    | _ => none
  | .takeFrame =>
    if w.writer ≠ .waiting ∨ w.channel.ended = true then none
    else match w.channel.outbox with
      | [] => none
      | frame :: rest =>
        some ({ w with channel := { w.channel with outbox := rest }, writer := .writing frame }.log
          [.written frame w.channel.connection])
  | .writerLeaves =>
    if w.writer = .waiting ∧ w.channel.ended = true then some { w with writer := .off } else none
  | .writeDone =>
    match w.writer with
    | .writing _ => some { w with writer := .waiting }
    | _ => none
  | .writeFailed error =>
    match w.writer with
    | .writing _ =>
      some { w with writer := .off, channel := { w.channel with writeFailure := some error } }
    | _ => none
  | .stopBegin reason =>
    if w.stopper ≠ .idle then none
    else match w.channel.stopBegin reason with
      | none => some (w.log [.stopped])
      | some c => some { w with channel := c, stopper := .joining }
  | .stopJoined =>
    -- the reader and the writer have been joined and the process is reaped
    if w.stopper = .joining ∧ w.reader = .leaving ∧ w.batch.isNone ∧ w.writer = .off then
      some { w.decide w.channel.stopLocked with reader := .off, stopper := .delivering }
    else none
  | .stopReturns =>
    if w.stopper = .delivering ∧ w.batch.isNone then
      some ({ w with stopper := .idle }.log [.stopped])
    else none

end World

end Channel

end Tensorplate
