import Tensorplate.Sdk.Model.Session

/-!
# The tasks of a speech session

One event loop runs the caller's calls, each as a task, the pinger, the
reader of the call and the open. A task runs from one await to the next; a
step of the world is one such run, or the end of something awaited. A lock
that is free may be taken by any task that waits for it, and a wait whose
condition holds may end: asyncio's own order is among these orders. A write
ends well or not, whatever ended it. A task that is cancelled takes no step
but its own end.
-/

namespace Tensorplate

namespace Sdk

/-- What a call of the caller's does. -/
inductive Work
  | sendAudio (bytes samples : ℕ)
  | sendText (bytes : ℕ)
  | finalize
  | close
  | cancel
  deriving DecidableEq, Repr

/-- Where a task of the caller's stands. -/
inductive Stage
  | absent
  /-- It waits for the input gate. -/
  | gate
  /-- It waits until no Finalize is unanswered. -/
  | unanswered
  /-- It waits for credit. -/
  | credit
  /-- It waits for the write lock, its audio made for this offset. -/
  | lock (sampleOffset : ℕ)
  /-- It writes the event of this sequence. -/
  | writing (sequence : ℕ)
  /-- Its write failed and it waits for the session's end. -/
  | ending
  /-- It waits for the answer to its Finalize. -/
  | answer (sequence : ℕ)
  | doneWriting
  | untilEnded
  | returned
  | raised
  deriving DecidableEq, Repr

/-- A task of the caller's. -/
structure Task where
  work : Work := .cancel
  stage : Stage := .absent
  cancelled : Bool := false
  deriving DecidableEq, Repr

/-- Where the pinger stands. -/
inductive PingStage
  | absent
  | sleeping
  | lock
  | writing
  | ending
  | done
  deriving DecidableEq, Repr

/-- Where `_begin` stands. -/
inductive BeginStage
  | absent
  | fresh
  | lock
  | writing
  | ending
  | untilReady
  | follow
  | returned
  | raised
  deriving DecidableEq, Repr

/-- Where `open` stands: in its wait for `_begin`, or, past its timeout, for
the session's end. -/
inductive OpenStage
  | absent
  | waiting
  | aborting
  | returned
  | raised
  deriving DecidableEq, Repr

/-- Where the reader of the call in use stands. -/
inductive ReadStage
  | absent
  | reading
  | concluding
  | done
  deriving DecidableEq, Repr

/-- **A session and its tasks.** -/
structure World where
  session : Session
  opener : OpenStage := .absent
  begins : BeginStage := .absent
  beginCancelled : Bool := false
  reader : ReadStage := .absent
  pinger : PingStage := .absent
  tasks : ℕ → Task := fun _ => {}

namespace World

/-- The session is changed. -/
def withSession (w : World) (s : Session) : World := { w with session := s }

/-! ## `open` -/

/-- `open`, past its check. -/
def openCalled (w : World) : Option World :=
  if w.session.opening || w.session.call.isSome || w.session.ended then none
  else some { w with
    session := { w.session with opening := true }
    opener := .waiting
    begins := .fresh }

/-- `_begin` makes a call and writes its Open. -/
def connectOpen (w : World) : World :=
  let s := w.session.connected
  let w := { w with session := s, reader := .reading }
  if s.writeLock.isSome then { w with begins := .lock }
  else
    match s.beginWrite .opener .opening with
    | some s => { w with session := s, begins := .writing }
    | none => { w with begins := .raised }

/-- `_begin` up to its first call. The agent names a target or does not; the
channel is open or not. -/
def beginFresh (w : World) (found : Except String StreamTarget) (channel : Bool) : Option World :=
  if w.begins ≠ .fresh ∨ w.beginCancelled then none
  else
    let read : Except World Session :=
      if w.session.targets then
        match found with
        | .error what => .error { w with
            session := w.session.settle (some (.discovery what)), begins := .raised }
        | .ok target =>
          .ok (if w.session.ended then w.session else { w.session with target := target })
      else .ok w.session
    match read with
    | .error w => some w
    | .ok s =>
      if s.ended then some { w with session := s, begins := .raised }
      else if !channel then some { w with session := s.shut, begins := .raised }
      else some (connectOpen { w with session := s })

/-- The second call of `_begin`. -/
def connectAgain (w : World) (channel : Bool) : World :=
  if !channel then { w with session := w.session.shut, begins := .raised }
  else
    connectOpen { w with session := { w.session with
      lost := none, reopened := true, writeFailed := false, sent := 0 } }

/-- `_begin` where its first call's Open or its wait for Ready raised; with
targets the agent is asked again. -/
def beginRaised (w : World) (channel : Bool) : World :=
  if w.session.lost.isNone then { w with begins := .raised }
  else if w.session.targets then { w with begins := .follow }
  else w.connectAgain channel

/-- The Open's wait for the lock ends. -/
def openLocked (w : World) (channel : Bool) : Option World :=
  if w.begins ≠ .lock ∨ w.beginCancelled ∨ w.session.writeLock.isSome then none
  else
    match w.session.beginWrite .opener .opening with
    | some s => some { w with session := s, begins := .writing }
    | none => some (w.beginRaised channel)

/-- The write of the Open fails, in the step gRPC fails it in. -/
def openAttemptFailed (w : World) : Option World :=
  if w.begins ≠ .writing then none
  else some (w.withSession
    ({ w.session with writeFailed := true }.note (.openWriteFailed (w.session.call.getD 0))))

/-- The write of the Open is over; one that failed before did not end well. -/
def openWritten (w : World) (ok : Bool) : Option World :=
  if w.begins ≠ .writing ∨ (ok ∧ w.session.writeFailed) then none
  else if ok then some { w with session := w.session.endWrite, begins := .untilReady }
  else some { w with
    session := { w.session with writeFailed := true }.note
      (.openWriteFailed (w.session.call.getD 0))
    begins := .ending }

/-- The session is over after a failed write of the Open. -/
def openEnding (w : World) (channel : Bool) : Option World :=
  if w.begins ≠ .ending ∨ !w.session.isOver then none
  else some ({ w with session := w.session.endWrite }.beginRaised channel)

/-- The wait for Ready ends. -/
def openAnswered (w : World) (channel : Bool) : Option World :=
  if w.begins ≠ .untilReady ∨ w.beginCancelled then none
  else if w.session.ready.isSome then some { w with begins := .returned }
  else if w.session.isOver then some (w.beginRaised channel)
  else none

/-- `_follow`, and the second call behind it. -/
def follow (w : World) (found : Except String StreamTarget) (channel : Bool) : Option World :=
  if w.begins ≠ .follow ∨ w.beginCancelled then none
  else
    match found with
    | .error what => some { w with
        session := w.session.settle (some (.discovery what)), begins := .raised }
    | .ok found =>
      let s := w.session.note (.named w.session.target found)
      if s.ended then some { w with session := s, begins := .raised }
      else if found = s.target ∧ !s.lostRetryable then
        some { w with session := s.settle s.lost, begins := .raised }
      else some ({ w with session := { s with target := found } }.connectAgain channel)

/-- A cancelled `_begin` unwinds. -/
def beginUnwinds (w : World) : Option World :=
  if w.beginCancelled ∧ w.begins ∈ [.fresh, .lock, .untilReady, .follow] then
    some { w with begins := .raised }
  else none

/-- `_within` leaves `_begin`: it is cancelled unless it is done or writing. -/
def leaveBegin (w : World) : World :=
  if w.begins ∈ [.fresh, .lock, .untilReady, .follow] then { w with beginCancelled := true } else w

/-- The `finally` of `open`. -/
def openDone (s : Session) : Session :=
  let s := { s with opening := false }
  match s.lost with
  | some error => s.settle (some error)
  | none => s

/-- `open` raises: its `except` and its `finally`. -/
def openRaises (w : World) : World :=
  let s := if w.session.call.isNone && !w.session.ended then
    w.session.abort (.closed "the open ended before its first call") else w.session
  { w with session := (openDone s).note .openRaised, opener := .raised }

/-- What ends the wait of `open`. -/
inductive OpenEnd
  /-- `_begin` is done. -/
  | done
  /-- Its timeout passes. -/
  | timeout
  /-- Past its timeout, the session has ended. -/
  | over
  /-- Its caller is cancelled. -/
  | cancelled
  deriving DecidableEq, Repr

/-- A step of `open`. -/
def openStep (w : World) : OpenEnd → Option World
  | .done =>
    if w.opener ≠ .waiting then none
    else if w.begins = .returned then
      some { w with session := (openDone w.session).note .openReturned, opener := .returned }
    else if w.begins = .raised then some w.openRaises
    else none
  | .timeout =>
    if w.opener ≠ .waiting ∨ w.begins = .returned ∨ w.begins = .raised then none
    else
      let w := w.leaveBegin
      some { w with session := w.session.abort (.timeout "answer to Open"), opener := .aborting }
  | .over => if w.opener ≠ .aborting ∨ !w.session.isOver then none else some w.openRaises
  | .cancelled =>
    if w.opener = .waiting then some w.leaveBegin.openRaises
    else if w.opener = .aborting then some w.openRaises
    else none

/-! ## The reader -/

/-- An event is read. -/
def read (w : World) (event : ServerEvent) : Option World :=
  if w.reader ≠ .reading then none
  else
    match w.session.take event with
    | (s, .error error) => some { w with session := s.abort error, reader := .concluding }
    | (_, .ok s) => some { w with
        session := s
        pinger := if s.ready.isSome ∧ w.session.ready.isNone then .sleeping else w.pinger }

/-- The call has no more events, or the reader fails with an error. -/
def readEnds (w : World) (error : Option SpeechError) : Option World :=
  if w.reader ≠ .reading then none
  else
    match error with
    | some error => some { w with session := w.session.abort error, reader := .concluding }
    | none => some { w with reader := .concluding }

/-- The status of the call is known. -/
def concludes (w : World) (status : StatusCode) : Option World :=
  if w.reader ≠ .concluding then none
  else some { w with session := w.session.conclude status, reader := .done }

/-! ## The pinger -/

/-- A step of the pinger; `written` is how a write of its ends. -/
def ping (w : World) (written : Bool) : Option World :=
  match w.pinger with
  | .sleeping =>
    if w.session.pingerStopped then some { w with pinger := .done }
    else some { w with pinger := .lock }
  | .lock =>
    if w.session.pingerStopped then some { w with pinger := .done }
    else if w.session.writeLock.isSome then none
    else
      match w.session.beginWrite .pinger .ping with
      | some s => some { w with session := s, pinger := .writing }
      | none => some { w with pinger := .done }
  | .writing =>
    if written then some { w with session := w.session.endWrite, pinger := .sleeping }
    else some { w with session := { w.session with writeFailed := true }, pinger := .ending }
  | .ending =>
    if w.session.isOver || w.session.pingerStopped then
      some { w with session := w.session.endWrite, pinger := .done }
    else none
  | _ => none

/-! ## The caller's tasks -/

/-- The task is at another stage. -/
def stage (w : World) (n : ℕ) (stage : Stage) : World :=
  { w with tasks := Function.update w.tasks n { w.tasks n with stage := stage } }

/-- An input gives the gate back, and its task is done. -/
def leave (w : World) (n : ℕ) (returns : Bool) : World :=
  let s := if w.session.inputGate = some n then { w.session with inputGate := none } else w.session
  (w.withSession (s.note (if returns then .returned n else .raised n))).stage n
    (if returns then .returned else .raised)

/-- `cancel`, up to its first await. -/
def cancelCalled (w : World) (n : ℕ) : World :=
  let s := w.session
  let w := { w with tasks := Function.update w.tasks n { work := .cancel, stage := .returned } }
  if s.ended then w
  else if s.call.isNone then
    if s.opening then w.withSession (({ s with cancelling := true }.note .cancelled).settle none)
    else w
  else
    let s := { s with cancelling := true }.note .cancelled
    let s := if s.lost.isSome then s.settle none else s
    (w.withSession s).stage n (if s.halfClosed then .untilEnded else .lock 0)

/-- A call of the caller's. -/
def called (w : World) (n : ℕ) (work : Work) : Option World :=
  if (w.tasks n).stage ≠ .absent then none
  else
    match work with
    | .cancel => some (w.cancelCalled n)
    | .close =>
      let w := { w with tasks := Function.update w.tasks n { work := work, stage := .lock 0 } }
      some (if w.session.ready.isNone then w.leave n false else w)
    | work => some { w with tasks := Function.update w.tasks n { work := work, stage := .gate } }

/-- The input gate is free. -/
def entered (w : World) (n : ℕ) : Option World :=
  if (w.tasks n).stage ≠ .gate ∨ (w.tasks n).cancelled ∨ w.session.inputGate.isSome then none
  else
    let w := w.withSession { w.session with inputGate := some n }
    if (w.tasks n).work ≠ .finalize ∧ !w.session.checkSending then some (w.leave n false)
    else some (w.stage n .unanswered)

/-- What an input of a kind is refused for, once no Finalize is unanswered. -/
def refuses (s : Session) : Work → Bool
  | .sendAudio bytes samples =>
    match s.ready with
    | none => true
    | some limits => samples * 1000 > limits.maxFrameMs * s.sampleRateHz || s.shortFrame ||
        bytes > s.credit.bytesLimit
  | .sendText bytes =>
    match s.ready with
    | none => true
    | some limits => bytes > limits.maxSegmentTextBytes ||
        s.synthesisText + bytes > limits.maxSynthesisTextBytes || bytes > s.credit.bytesLimit
  | _ => !s.checkSending

/-- No Finalize is unanswered, or the session is over. -/
def answered (w : World) (n : ℕ) : Option World :=
  if (w.tasks n).stage ≠ .unanswered ∨ (w.tasks n).cancelled then none
  else if w.session.finalizing.isSome then
    if w.session.isOver then some (w.leave n false) else none
  else if refuses w.session (w.tasks n).work then some (w.leave n false)
  else some (w.stage n (if (w.tasks n).work = .finalize then .lock 0 else .credit))

/-- The bytes an input takes of the credit. -/
def chargeOf : Work → Option ℕ
  | .sendAudio bytes _ => some bytes
  | .sendText bytes => some bytes
  | _ => none

/-- The credit admits the input, or the session is over. -/
def credited (w : World) (n : ℕ) : Option World :=
  if (w.tasks n).stage ≠ .credit ∨ (w.tasks n).cancelled then none
  else if w.session.fits ((chargeOf (w.tasks n).work).getD 0) then
    some (w.stage n (.lock w.session.samplesSent))
  else if w.session.isOver then some (w.leave n false)
  else none

/-- A frame is shorter than the least one. -/
def isShort (s : Session) (samples : ℕ) : Bool :=
  match s.ready with
  | none => false
  | some limits => samples * 1000 < limits.minFrameMs * s.sampleRateHz

/-- The event a task writes. -/
def bodyOf (s : Session) (sampleOffset : ℕ) : Work → ClientBody
  | .sendAudio _ samples => .audio sampleOffset samples (isShort s samples)
  | .sendText _ => .textSegment s.nextSegment
  | .finalize => .finalize
  | _ => .cancel

/-- `_sending`: a segment is counted once its write is certain. -/
def sending (s : Session) : Work → Session
  | .sendText bytes =>
    { s with nextSegment := s.nextSegment + 1, synthesisText := s.synthesisText + bytes }
  | _ => s

/-- The write lock is free: the write starts, or `done_writing` does. -/
def locked (w : World) (n : ℕ) : Option World :=
  match (w.tasks n).stage with
  | .lock sampleOffset =>
    if (w.tasks n).cancelled ∨ w.session.writeLock.isSome then none
    else if (w.tasks n).work = .close then
      if w.session.ended || w.session.halfClosed then some (w.stage n .untilEnded)
      else some ((w.withSession
        ({ w.session with
            halfClosed := true, pingerStopped := true, writeLock := some (.task n) }.note
          (.doneWriting (w.session.call.getD 0)))).stage n .doneWriting)
    else
      match w.session.beginWrite (.task n) (bodyOf w.session sampleOffset (w.tasks n).work)
          (chargeOf (w.tasks n).work) with
      | some s => some ((w.withSession (sending s (w.tasks n).work)).stage n (.writing s.sent))
      | none =>
        -- `cancel` passes over the error and waits for the end of the session.
        some (if (w.tasks n).work = .cancel then w.stage n .untilEnded else w.leave n false)
  | _ => none

/-- What follows the write of an event that ended well. -/
def afterWrite (w : World) (n sequence : ℕ) : World :=
  let w := w.withSession w.session.endWrite
  match (w.tasks n).work with
  | .sendAudio _ samples =>
    (w.withSession { w.session with
      samplesSent := w.session.samplesSent + samples
      shortFrame := isShort w.session samples }).leave n true
  | .finalize =>
    (w.withSession { w.session with shortFrame := false, synthesisText := 0 }).stage n
      (.answer sequence)
  | .cancel => w.stage n .untilEnded
  | _ => w.leave n true

/-- A write, or `done_writing`, is over. -/
def written (w : World) (n : ℕ) (ok : Bool) : Option World :=
  match (w.tasks n).stage with
  | .writing sequence =>
    if ok then some (w.afterWrite n sequence)
    else some ((w.withSession { w.session with writeFailed := true }).stage n .ending)
  | .doneWriting => some ((w.withSession w.session.endWrite).stage n .untilEnded)
  | _ => none

/-- Whether a call that waited for the end of the session returns: `close`
raises the failure of the session, and where it did not end as closed. -/
def returnsAtEnd (s : Session) : Work → Bool
  | .close => s.failure.isNone && s.closed.isSome && !s.cancelling
  | _ => true

/-- What the task waits for at its end is there. -/
def woken (w : World) (n : ℕ) : Option World :=
  if (w.tasks n).cancelled then none
  else
    match (w.tasks n).stage with
    | .ending =>
      if !w.session.isOver then none
      else
        let w := w.withSession w.session.endWrite
        some (if (w.tasks n).work = .cancel then w.stage n .untilEnded else w.leave n false)
    | .answer sequence =>
      if w.session.answer = some sequence then some (w.leave n true)
      else if w.session.isOver then some (w.leave n false)
      else none
    | .untilEnded =>
      if w.session.isOver then some (w.leave n (returnsAtEnd w.session (w.tasks n).work)) else none
    | _ => none

/-- The task waits, and is not writing. -/
def Stage.waits : Stage → Bool
  | .gate => true
  | .unanswered => true
  | .credit => true
  | .lock _ => true
  | .answer _ => true
  | .untilEnded => true
  | _ => false

/-- A wait of the task's passes its timeout. A `cancel` goes on to wait for
the end of the session; `finalize` and `close` abort it. They wait only once
Ready was read: before, they raise in their first step. -/
def timedOut (w : World) (n : ℕ) : World :=
  match (w.tasks n).work, (w.tasks n).stage with
  | .cancel, .lock _ => w.stage n .untilEnded
  | .cancel, _ => w
  | _, _ =>
    if w.session.ready.isSome then
      w.withSession (w.session.abort (.timeout "a wait of the caller's"))
    else w

/-- `_within` leaves the task: it is cancelled unless it is done or writing. -/
def leaveTask (w : World) (n : ℕ) : World :=
  if Stage.waits (w.tasks n).stage then
    { w with tasks := Function.update w.tasks n { w.tasks n with cancelled := true } }
  else w

/-- Its caller leaves the task, cancelled itself or past a timeout. -/
def left (w : World) (n : ℕ) (timeout : Bool) : Option World :=
  if (w.tasks n).stage = .absent ∨ (w.tasks n).stage = .returned ∨ (w.tasks n).stage = .raised then
    none
  else if timeout then
    match (w.tasks n).work with
    | .cancel => some (w.timedOut n)
    | .finalize => some ((w.leaveTask n).timedOut n)
    | .close => some ((w.leaveTask n).timedOut n)
    | _ => none
  else some (w.leaveTask n)

/-- A cancelled task unwinds. -/
def unwinds (w : World) (n : ℕ) : Option World :=
  if (w.tasks n).cancelled ∧ Stage.waits (w.tasks n).stage then some (w.leave n false) else none

/-- A step of the world. -/
inductive Action
  | openCalled
  | beginFresh (found : Except String StreamTarget) (channel : Bool)
  | openLocked (channel : Bool)
  | openAttemptFailed
  | openWritten (ok : Bool)
  | openEnding (channel : Bool)
  | openAnswered (channel : Bool)
  | follow (found : Except String StreamTarget) (channel : Bool)
  | beginUnwinds
  | openStep (e : OpenEnd)
  | read (event : ServerEvent)
  | readEnds (error : Option SpeechError)
  | concludes (status : StatusCode)
  | ping (written : Bool)
  | called (n : ℕ) (work : Work)
  | entered (n : ℕ)
  | answered (n : ℕ)
  | credited (n : ℕ)
  | locked (n : ℕ)
  | written (n : ℕ) (ok : Bool)
  | woken (n : ℕ)
  | left (n : ℕ) (timeout : Bool)
  | unwinds (n : ℕ)
  /-- The client or its channel is closed. -/
  | shut

/-- **The step.** -/
def step (w : World) : Action → Option World
  | .openCalled => w.openCalled
  | .beginFresh found channel => w.beginFresh found channel
  | .openLocked channel => w.openLocked channel
  | .openAttemptFailed => w.openAttemptFailed
  | .openWritten ok => w.openWritten ok
  | .openEnding channel => w.openEnding channel
  | .openAnswered channel => w.openAnswered channel
  | .follow found channel => w.follow found channel
  | .beginUnwinds => w.beginUnwinds
  | .openStep e => w.openStep e
  | .read event => w.read event
  | .readEnds error => w.readEnds error
  | .concludes status => w.concludes status
  | .ping written => w.ping written
  | .called n work => w.called n work
  | .entered n => w.entered n
  | .answered n => w.answered n
  | .credited n => w.credited n
  | .locked n => w.locked n
  | .written n ok => w.written n ok
  | .woken n => w.woken n
  | .left n timeout => w.left n timeout
  | .unwinds n => w.unwinds n
  | .shut => some (w.withSession w.session.shut)

/-- A session before its open. -/
def fresh (targets sendsSegments : Bool) (sampleRateHz : ℕ) (target : StreamTarget) : World where
  session := { targets := targets, sendsSegments := sendsSegments, sampleRateHz := sampleRateHz
               target := target }

end World

end Sdk

end Tensorplate
