import Tensorplate.Agent.Model.Writes

/-!
# Deploy and rollback requests

`Coordinator::deploy_with` and `Coordinator::rollback` as one machine: a
request stands at a stage, `Request.op` says what it does there, and
`Request.resume` where it goes on the answer. Everything a request does
between two stages is its own; what it does at a stage is one update of
the store, one reading of it, one call of the worker control or one check
of the disk, so any number of requests interleave at the stages.
-/

namespace Tensorplate

namespace Agent

/-- `AgentError::to_record`. -/
def AgentError.toRecord (e : AgentError) : ErrorRecord :=
  let (code, recoverable) : ErrorCode × Bool :=
    match e with
    | .busy _ => (.notReady, true)
    | .unavailable _ => (.unsupported, false)
    | .corruptState _ => (.configInvalid, false)
    | .stateIndeterminate _ => (.internal, false)
    | .invalidTransition _ => (.configInvalid, false)
    | .stopping => (.unavailable, true)
    | .deploymentDescriptor code _ => (code, false)
    | .internal _ => (.internal, true)
    | .io _ => (.internal, true)
    | .serialization _ => (.internal, true)
    | .refusal code _ recoverable => (code, recoverable)
  { code := code, message := e.display, recoverable := recoverable }

/-- `VerifiedBundle`, as far as a deploy records it. -/
structure VerifiedBundle where
  manifestDigest : String
  name : String
  version : String
  backendHint : String
  modelClass : String
  artifact : Option String
  /-- The bundle is of format 0.2, which gets a descriptor. -/
  described : Bool
  deriving DecidableEq, Repr

/-- **Where a request stands.** -/
inductive Stage
  /-- `refuse_while_stopping`, before anything else. -/
  | entering
  /-- A rollback reads `previous_active`. -/
  | reading
  /-- A rollback revalidates the staged copy of that record. -/
  | rechecking
  | beginning
  | verifying
  | recordVerified
  | recordDigest
  | staging
  | recordCandidate
  | recordStaged
  | checkingCapacity
  | recordCapacity
  /-- `start_deploy` and `start_again` compare the staged bundle. -/
  | restaging
  | holding
  | naming
  /-- The hold of a naming that failed is released. -/
  | releasing (e : AgentError)
  | preparing
  /-- The hold ends once `prepare` has returned. -/
  | unholding (failure : Option AgentError)
  | recordPrepared
  | warming
  | recordWarmed
  | fencing
  | committing
  | activating
  /-- A deploy reads which deployment to unload. -/
  | reviewing
  | unloading (deploymentId : String)
  | ending
  /-- `fail` and `fail_rollback`: `refuse_while_stopping` again. -/
  | failing (e : AgentError)
  /-- The transaction is ended as failed. -/
  | clearing (e : AgentError)
  /-- The `Prepared` guard abandons the candidate. -/
  | leaving (failure : Option AgentError)
  | finished (failure : Option AgentError)
  deriving DecidableEq, Repr

/-- One request and what it holds between its stages. -/
structure Request where
  kind : TransactionKind
  transactionId : String
  /-- The deploy's, or that of the record a rollback read. -/
  deploymentId : String
  bundlePath : String
  labels : List (String × String) := []
  correlationId : Option String := none
  streaming : Bool := false
  stage : Stage := .entering
  verified : Option VerifiedBundle := none
  /-- The candidate record of a deploy, the record a rollback read. -/
  record : Option DeploymentRecord := none
  artifact : Option String := none
  reference : Option CandidateRef := none
  held : Bool := false
  prepared : Bool := false
  promoted : Bool := false
  deriving DecidableEq, Repr

/-- A deploy as it arrives. -/
def Request.deploy (transactionId deploymentId bundlePath : String)
    (labels : List (String × String) := []) (correlationId : Option String := none)
    (streaming : Bool := false) : Request :=
  { kind := .deploy
    transactionId := transactionId
    deploymentId := deploymentId
    bundlePath := bundlePath
    labels := labels
    correlationId := correlationId
    streaming := streaming
    stage :=
      if isValidDeploymentId deploymentId then .entering
      else .finished (some (.refusal .configInvalid "deployment_id is not valid" false)) }

/-- A rollback as it arrives. -/
def Request.rollback (transactionId : String) (correlationId : Option String := none) : Request :=
  { kind := .rollback
    transactionId := transactionId
    deploymentId := ""
    bundlePath := ""
    correlationId := correlationId }

/-! ## What a request does at a stage -/

/-- One operation of a request. -/
inductive Op
  /-- `worker.stopping()`. -/
  | stopping
  | snapshot
  /-- A check of the bundle, the platform or the disk. -/
  | check
  | write (write : Write)
  | hold
  | release
  | prepare (reference : CandidateRef)
  | warm (reference : CandidateRef)
  | fence (reference : CandidateRef)
  | activate (reference : CandidateRef)
  | unload (deploymentId : String)
  | abandon (reference : CandidateRef)
  | idle
  deriving DecidableEq, Repr

/-- The journal entry a request begins with. -/
def Request.transactionRecord (r : Request) (now : ℕ) : TransactionRecord :=
  { transactionId := r.transactionId
    deploymentId := r.deploymentId
    phase := .received
    kind := r.kind
    bundleDigest :=
      match r.kind with
      | .deploy => none
      | .rollback => r.record.map (·.bundleDigest)
    bundlePath := some r.bundlePath
    correlationId := r.correlationId
    startedMonotonicNs := some now
    lastTransitionMonotonicNs := some now }

/-- The operation on the request's reference, once it has one. -/
def Request.onReference (r : Request) (op : CandidateRef → Op) : Op :=
  match r.reference with
  | some reference => op reference
  | none => .idle

/-- The operation on the request's record, once it has one. -/
def Request.onRecord (r : Request) (op : DeploymentRecord → Op) : Op :=
  match r.record with
  | some record => op record
  | none => .idle

/-- **What a request does where it stands.** -/
def Request.op (r : Request) (now : ℕ) : Op :=
  match r.stage with
  | .entering => .stopping
  | .reading => .snapshot
  | .rechecking => .check
  | .beginning => .write (.beginTransaction (r.transactionRecord now))
  | .verifying => .check
  | .recordVerified => .write (.recordPhase r.transactionId .verified now)
  | .recordDigest =>
    match r.verified with
    | some verified => .write (.recordDigest verified.manifestDigest)
    | none => .idle
  | .staging => .check
  | .recordCandidate => r.onRecord fun record => .write (.recordCandidate record)
  | .recordStaged => .write (.recordPhase r.transactionId .staged now)
  | .checkingCapacity => .check
  | .recordCapacity => .write (.recordPhase r.transactionId .capacityChecked now)
  | .restaging => .check
  | .holding => .hold
  | .naming =>
    r.onRecord fun record =>
      match r.kind with
      | .deploy => .write (.nameDeploy r.transactionId record)
      | .rollback => .write (.nameRollback r.transactionId record)
  | .releasing _ => .release
  | .preparing => r.onReference .prepare
  | .unholding _ => .release
  | .recordPrepared => .write (.recordPhase r.transactionId .prepared now)
  | .warming => r.onReference .warm
  | .recordWarmed => .write (.recordPhase r.transactionId .warmed now)
  | .fencing => r.onReference .fence
  | .committing =>
    match r.kind with
    | .deploy => .write (.promoteCandidate now)
    | .rollback => .write (.swapActiveWithPrevious now)
  | .activating => r.onReference .activate
  | .reviewing => .snapshot
  | .unloading deploymentId => .unload deploymentId
  | .ending => .write .endTransaction
  | .failing _ => .stopping
  | .clearing e =>
    match r.kind with
    | .deploy => .write (.quarantineInFlight e.toRecord now)
    | .rollback => .write (.failTransaction e.toRecord)
  | .leaving _ => r.onReference .abandon
  | .finished _ => .idle

/-! ## Where a request goes -/

/-- What an operation answers. -/
inductive Reply
  | done
  | failed (e : AgentError)
  /-- Whether the worker control stops, whether the candidate is ready. -/
  | answered (yes : Bool)
  | state (s : AgentState)
  | verified (bundle : VerifiedBundle)
  /-- A staged path, the digest of a staged manifest, an artifact path. -/
  | text (value : String)
  | taken (taken : Taken)
  deriving DecidableEq, Repr

/-- The request at another stage. -/
def Request.at (r : Request) (stage : Stage) : Request := { r with stage := stage }

/-- The request returns: an unpromoted candidate is abandoned first. -/
def Request.leave (r : Request) (failure : Option AgentError) : Request :=
  if r.prepared && !r.promoted then r.at (.leaving failure) else r.at (.finished failure)

/-- `advance(..)?` and the other writes that end the request when they
fail. -/
def Request.advanced (r : Request) (reply : Reply) (next : Stage) : Request :=
  match reply with
  | .taken _ => r.at next
  | .failed e => r.leave (some e)
  | _ => r

/-- The candidate record of a deploy. -/
def Request.candidateRecord (r : Request) (verified : VerifiedBundle) (stagedPath : String) :
    DeploymentRecord :=
  { deploymentId := r.deploymentId
    bundleDigest := verified.manifestDigest
    bundleName := verified.name
    bundleVersion := verified.version
    backendHint := verified.backendHint
    modelClass := verified.modelClass
    stagedPath := stagedPath
    labels := r.labels
    streaming := r.streaming }

/-- The request with the reference it hands to the worker control. -/
def Request.referred (r : Request) (reference : CandidateRef) : Request :=
  { r with reference := some reference, stage := .preparing }

/-- Whether the request's record gets a descriptor named: a deploy of a
format 0.2 bundle, a rollback to a record that names one. -/
def Request.described (r : Request) : Except DescriptorIdentityError Bool :=
  match r.kind with
  | .deploy => .ok (r.verified.any (·.described))
  | .rollback =>
    match r.record with
    | none => .ok false
    | some record =>
      match record.descriptorIdentity with
      | .ok identity => .ok identity.isSome
      | .error e => .error e

/-- Past the staged copy: a described record takes the hold, another is
referenced as it is. -/
def Request.restaged (r : Request) (record : DeploymentRecord) (described : Bool) : Request :=
  if described then r.at .holding else r.referred (referenceOf record r.artifact)

/-- `start_deploy` and `start_again`, up to the hold. -/
def Request.start (r : Request) : Request :=
  match r.record, r.described with
  | none, _ => r
  | some _, .error _ => r.at (.failing (unusable "is not named"))
  | some record, .ok described =>
    -- a deploy compares the staged copy only where it derives from it
    if r.kind = .deploy && !described then r.referred (referenceOf record r.artifact)
    else r.at .restaging

/-- **Where a request goes on an answer.** -/
def Request.resume (r : Request) (reply : Reply) : Request :=
  match r.stage with
  | .entering =>
    match reply with
    | .answered true => r.at (.finished (some .stopping))
    | .answered false =>
      match r.kind with
      | .deploy => r.at .beginning
      | .rollback => r.at .reading
    | _ => r
  | .reading =>
    match reply with
    | .state s =>
      match s.previousActive with
      | none => r.at (.finished (some (.unavailable "no previous active deployment")))
      | some previous =>
        { r with
          record := some previous
          deploymentId := previous.deploymentId
          bundlePath := previous.stagedPath
          stage := .rechecking }
    | .failed e => r.at (.finished (some e))
    | _ => r
  | .rechecking =>
    match reply with
    | .text artifact => { r with artifact := some artifact, stage := .beginning }
    | .failed e => r.at (.finished (some e))
    | _ => r
  | .beginning =>
    match r.kind with
    | .deploy => r.advanced reply .verifying
    | .rollback => r.advanced reply .recordVerified
  | .verifying =>
    match reply with
    | .verified bundle =>
      { r with verified := some bundle, artifact := bundle.artifact, stage := .recordVerified }
    | .failed e => r.at (.failing e)
    | _ => r
  | .recordVerified =>
    match r.kind with
    | .deploy => r.advanced reply .recordDigest
    | .rollback => r.advanced reply .recordStaged
  | .recordDigest => r.advanced reply .staging
  | .staging =>
    match reply, r.verified with
    | .text stagedPath, some verified =>
      { r with record := some (r.candidateRecord verified stagedPath), stage := .recordCandidate }
    | .failed e, _ => r.at (.failing e)
    | _, _ => r
  | .recordCandidate => r.advanced reply .recordStaged
  | .recordStaged =>
    match r.kind with
    | .deploy => r.advanced reply .checkingCapacity
    | .rollback => r.advanced reply .recordCapacity
  | .checkingCapacity =>
    match reply with
    | .done => r.at .recordCapacity
    | .failed e => r.at (.failing e)
    | _ => r
  | .recordCapacity =>
    match reply with
    | .taken _ => r.start
    | .failed e => r.leave (some e)
    | _ => r
  | .restaging =>
    match reply, r.record, r.described with
    | .text digest, some record, .ok described =>
      if bundleDigestsEqual digest record.bundleDigest then r.restaged record described
      else r.at (.failing (.refusal .loadFailed "another bundle is staged" false))
    | .failed e, _, _ => r.at (.failing e)
    | _, _, _ => r
  | .holding =>
    match reply with
    | .done => { r with held := true, stage := .naming }
    | _ => r
  | .naming =>
    match reply, r.record with
    | .taken (.identity identity), some record =>
      r.referred ((referenceOf record r.artifact).naming identity)
    | .failed e, _ => r.at (.releasing e)
    | _, _ => r
  | .releasing e =>
    match reply with
    | .done => { r with held := false, stage := .failing e }
    | _ => r
  | .preparing =>
    match reply with
    | .done =>
      if r.held then r.at (.unholding none) else { r with prepared := true, stage := .recordPrepared }
    | .failed e => if r.held then r.at (.unholding (some e)) else r.at (.failing e)
    | _ => r
  | .unholding failure =>
    match reply with
    | .done =>
      match failure with
      | none => { r with held := false, prepared := true, stage := .recordPrepared }
      | some e => { r with held := false, stage := .failing e }
    | _ => r
  | .recordPrepared => r.advanced reply .warming
  | .warming =>
    match reply with
    | .answered true => r.at .recordWarmed
    | .answered false => r.at (.failing (.refusal .notReady "worker reported candidate is not ready" true))
    | .failed e => r.at (.failing e)
    | _ => r
  | .recordWarmed => r.advanced reply .fencing
  | .fencing =>
    match reply with
    | .done => r.at .committing
    | .failed e => r.at (.failing e)
    | _ => r
  | .committing =>
    match reply with
    | .taken _ => { r with promoted := true, stage := .activating }
    | .failed e => r.at (.failing e)
    | _ => r
  | .activating =>
    match reply with
    | .done =>
      match r.kind with
      | .deploy => r.at .reviewing
      | .rollback => r.at .ending
    | .failed e => r.leave (some e)
    | _ => r
  | .reviewing =>
    match reply with
    | .state s =>
      -- a deployment replaced under its own id was retired at activation
      match s.previousActive.filter fun previous => previous.deploymentId ≠ r.deploymentId with
      | some previous => r.at (.unloading previous.deploymentId)
      | none => r.at .ending
    | .failed e => r.leave (some e)
    | _ => r
  | .unloading _ =>
    match reply with
    | .done => r.at .ending
    | _ => r
  | .ending =>
    match reply with
    | .taken _ => r.at (.finished none)
    | .failed e => r.leave (some e)
    | _ => r
  | .failing e =>
    match reply with
    | .answered true => r.leave (some .stopping)
    | .answered false => r.at (.clearing e)
    | _ => r
  | .clearing e =>
    match reply with
    | .taken _ => r.leave (some e)
    | .failed e' => r.leave (some e')
    | _ => r
  | .leaving failure =>
    match reply with
    | .done => r.at (.finished failure)
    | _ => r
  | .finished _ => r

/-! ## Requests on one coordinator -/

/-- What the environment answers at one step: the worker control and the
disk, the descriptor documents, the clock, and a write that fails before
its commit. -/
structure Env where
  reply : Reply := .done
  docs : Documents
  now : ℕ := 0
  io : Option AgentError := none

/-- **An update of the store as one step.** It applies the closure, stamps
and checks its result and takes it, or changes nothing. -/
def tryWrite (env : Env) (write : Write) (s : AgentState) : Reply × AgentState :=
  match env.io with
  | some e => (.failed e, s)
  | none =>
    match write.run env.docs s with
    | .error e => (.failed e, s)
    | .ok (taken, changed) =>
      let next := StateStore.stamp changed
      match s.validateSuccessor next with
      | .error _ => (.failed (.internal "state update refused"), s)
      | .ok () =>
        if next.valid then (.taken taken, next)
        else (.failed (.internal "state update refused"), s)

/-- A coordinator, its requests, each on a thread of its own, and the
reference its worker control was last told to activate. -/
structure Coordinator where
  state : AgentState
  requests : List Request := []
  told : Option CandidateRef := none

/-- A request arrives, or one of them takes its next step. -/
inductive Action
  | deploy (transactionId deploymentId bundlePath : String) (labels : List (String × String))
      (correlationId : Option String) (streaming : Bool)
  | rollback (transactionId : String) (correlationId : Option String)
  | step (i : ℕ) (env : Env)

/-- The coordinator after request `i`, at `r`, goes on with a reply. -/
def Coordinator.resumed (c : Coordinator) (i : ℕ) (r : Request) (reply : Reply) : Coordinator :=
  { c with requests := c.requests.set i (r.resume reply) }

/-- **One step of the coordinator's threads.** -/
def Coordinator.step (c : Coordinator) : Action → Option Coordinator
  | .deploy transactionId deploymentId bundlePath labels correlationId streaming =>
    some { c with
      requests := c.requests ++
        [Request.deploy transactionId deploymentId bundlePath labels correlationId streaming] }
  | .rollback transactionId correlationId =>
    some { c with requests := c.requests ++ [Request.rollback transactionId correlationId] }
  | .step i env =>
    match c.requests[i]? with
    | none => none
    | some r =>
      match r.op env.now with
      | .idle => none
      | .write write =>
        let (reply, s) := tryWrite env write c.state
        some { c.resumed i r reply with state := s }
      | .snapshot => some (c.resumed i r (.state c.state))
      | .activate reference => some { c.resumed i r env.reply with told := some reference }
      | _ => some (c.resumed i r env.reply)

end Agent

end Tensorplate
