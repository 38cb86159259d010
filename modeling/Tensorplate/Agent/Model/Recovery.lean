import Tensorplate.Agent.Model.Coordinator

/-!
# Startup recovery

What a start does before the agent accepts requests: `apply_startup`
settles the transaction it finds, in at most one write, and starts the
active record again. Around it the life of one agent: starts, requests one
at a time, restarts of members between them, and kills at any point, on
the store's two files. Beside it a journal keeps which transaction is open
and on which state its commit write landed; no step reads the journal.
-/

namespace Tensorplate

namespace Agent

/-! ## The pass -/

/-- `committed`: whether a transaction reached its commit, read from the
records alone. -/
def committed (s : AgentState) (tx : TransactionRecord) : Bool :=
  match tx.kind with
  | .deploy => (tx.phase == .promoted || tx.phase == .active) && s.candidate.isNone
  | .rollback =>
    if !(tx.phase == .promoted || tx.phase == .rolledBack) then false
    else
      match s.active with
      | none => false
      | some active =>
        match tx.descriptorIdentity with
        -- a restart of the member may have named a later generation
        | .ok (some named) =>
          active.deploymentId == tx.deploymentId &&
            match active.descriptorIdentity with
            | .ok (some now) =>
              named.generation ≤ now.generation &&
                now.configurationDigest == named.configurationDigest
            | _ => false
        | .ok none =>
          active.deploymentId == tx.deploymentId &&
            tx.bundleDigest.any fun digest => bundleDigestsEqual digest active.bundleDigest
        | .error _ => false

/-- `Settle`: what a start does about the transaction it finds. -/
inductive Settle
  | nothing
  /-- It reached its commit: it is cleared and its records stand. -/
  | forward
  /-- It was interrupted before its commit: it is ended as failed. -/
  | ended
  /-- A rollback was recorded failed and not cleared. -/
  | failed
  deriving DecidableEq, Repr

/-- How `pass` settles the transaction in flight. -/
def settle (s : AgentState) : Settle :=
  match s.inFlightTransaction with
  | none => .nothing
  | some tx =>
    if tx.phase = .failed ∧ tx.kind = .rollback then .failed
    else if committed s tx then .forward
    else .ended

/-- `label`: the phase as status reports it. -/
def DeployState.label : DeployState → String
  | .received => "received"
  | .verified => "verified"
  | .staged => "staged"
  | .capacityChecked => "capacity_checked"
  | .prepared => "prepared"
  | .warmed => "warmed"
  | .promoted => "promoted"
  | .active => "active"
  | .failed => "failed"
  | .rolledBack => "rolled_back"

/-- `describe`. -/
def describe (tx : TransactionRecord) : String :=
  let kind :=
    match tx.kind with
    | .deploy => "deploy"
    | .rollback => "rollback"
  kind ++ " transaction `" ++ tx.transactionId ++ "` of `" ++ tx.deploymentId ++ "`"

/-- The error of an interrupted transaction that recorded none. -/
def interrupted (tx : TransactionRecord) : ErrorRecord :=
  { code := .internal
    message := describe tx ++ " was interrupted at `" ++ tx.phase.label ++
      "`, before its commit, and ended at the next start"
    context := some "startup_recovery" }

/-- The error of a failed rollback that recorded none. -/
def unrecorded (tx : TransactionRecord) : ErrorRecord :=
  { code := .internal
    message := describe tx ++ " failed"
    context := some "startup_recovery" }

/-- **The one write a start settles with**, if any. -/
def settling (s : AgentState) (now : ℕ) : Option Write :=
  match s.inFlightTransaction with
  | some tx =>
    match settle s with
    | .nothing => none
    | .forward => some .endTransaction
    | .ended => some (.quarantineInFlight (tx.failure.getD (interrupted tx)) now)
    | .failed => some (.failTransaction (tx.failure.getD (unrecorded tx)))
  -- a candidate record without its deploy, as an earlier build could leave
  | none => if s.candidate.isSome then some .clearCandidate else none

/-- `ServingMember`, as far as `serves` reads it. -/
structure ServingMember where
  deploymentId : String
  bundleDigest : String
  descriptorDigest : Option String
  configurationDigest : Option String
  deriving DecidableEq, Repr

/-- What the worker control reports at a start. -/
structure Worker where
  servingMember : Except AgentError (Option ServingMember) := .ok none
  activeDeploymentId : Except AgentError (Option String) := .ok none

/-- `serves`. -/
def serves (serving : ServingMember) (recorded : DeploymentRecord) : Bool :=
  serving.deploymentId == recorded.deploymentId &&
    bundleDigestsEqual serving.bundleDigest recorded.bundleDigest &&
    (recorded.descriptorDigest.isNone || recorded.descriptorDigest == serving.descriptorDigest) &&
    (recorded.configurationDigest.isNone ||
      recorded.configurationDigest == serving.configurationDigest)

/-- `Served`. -/
inductive Served
  | record
  | another
  | nothing
  deriving DecidableEq, Repr

/-- `served`. -/
def served (worker : Worker) (record : DeploymentRecord) : Served :=
  let orAnother (isRecord : Bool) : Served := if isRecord then .record else .another
  match worker.servingMember with
  | .ok (some serving) => orAnother (serves serving record)
  | _ =>
    match worker.activeDeploymentId with
    | .ok (some id) => orAnother (id == record.deploymentId)
    | _ => .nothing

/-- Whether `pass` starts the active record again. -/
def restores (s : AgentState) (worker : Worker) : Bool :=
  match s.active.map (served worker) with
  | some .nothing | some .another => true
  | _ => false

/-- `RecoveryAction`, those a pass reports. -/
inductive RecoveryAction
  | noOp
  | restoreActive
  | quarantineCandidate
  | operatorRequired
  deriving DecidableEq, Repr

/-- `Pass`, with the reason it reports. -/
structure Pass where
  settle : Settle
  restore : Bool
  action : RecoveryAction
  reason : String
  deriving DecidableEq, Repr

/-- What the pass reports of the transaction. -/
def settledReason (s : AgentState) : Option String :=
  s.inFlightTransaction.map fun tx =>
    match settle s with
    | .failed => describe tx ++ " is recorded failed: a start clears it"
    | .forward => describe tx ++ " has committed: a start clears it"
    | _ => describe tx ++ " is at `" ++ tx.phase.label ++
        "`, before its commit: a start ends it as failed"

/-- `pass`. -/
def pass (s : AgentState) (worker : Worker) : Pass :=
  let serving := s.active.map (served worker)
  let restore := restores s worker
  let action : RecoveryAction :=
    if restore then .restoreActive
    else if settle s = .ended then .quarantineCandidate
    else .noOp
  let restored :=
    match serving with
    | none => "no deployment recorded"
    | some .record => "desired and actual active deployments agree"
    | some .nothing => "desired active deployment recorded; worker unreachable or empty"
    | some .another => "desired active deployment recorded; the worker serves another"
  let (action, restored) :=
    match settle s, serving, worker.activeDeploymentId with
    | .nothing, none, .ok (some id) =>
      (.operatorRequired, "worker reports `" ++ id ++ "` but no desired active deployment is recorded")
    | _, _, _ => (action, restored)
  { settle := settle s
    restore := restore
    action := action
    reason :=
      match settledReason s with
      | some settled => settled ++ "; " ++ restored
      | none => restored }

/-! ## Restoring the active record -/

/-- What follows the write of `last_error`. -/
inductive AfterError
  /-- The restore is over, and the start with it. -/
  | over
  /-- The start ends with this error. -/
  | exit (e : AgentError)
  /-- The record is handed to the restarts, or else the start ends. -/
  | owe (e : AgentError)
  deriving DecidableEq, Repr

/-- **Where `restore_active` stands.** -/
inductive Restore
  | reading
  /-- The staged bundle is compared and its artifact read. -/
  | checking (active : DeploymentRecord)
  /-- `start_again` compares the staged bundle once more. -/
  | restaging (active : DeploymentRecord) (artifact : String)
  | naming (active : DeploymentRecord) (artifact : String)
  /-- `prepare`, `warm` and `promote`. -/
  | bringingUp (candidate : CandidateRef)
  | recording (error : Option ErrorRecord) (after : AfterError)
  | owing (e : AgentError)
  /-- `apply_startup` returned. -/
  | over
  /-- It returned this error, which ends the process. -/
  | exit (e : AgentError)
  deriving DecidableEq, Repr

/-- What the restore does where it stands. -/
def Restore.op : Restore → Op
  | .reading => .snapshot
  | .checking _ | .restaging _ _ | .bringingUp _ | .owing _ => .check
  | .naming active _ => .write (.nameRestore active)
  | .recording error _ => .write (.setLastError error)
  | .over | .exit _ => .idle

/-- `RESTORE_FAILURE`. -/
def restoreFailure : String := "startup_restore"

/-- `refuse`: the refusal as `last_error`, and no error returned. -/
def Restore.refuse (active : DeploymentRecord) (e : AgentError) : Restore :=
  let record := e.toRecord
  .recording
    (some { record with
      message := record.message ++ "; `" ++ active.deploymentId ++
        "` is not serving until it is deployed again" })
    .over

/-- Where the restore goes on an answer. -/
def Restore.resume (restore : Restore) (reply : Reply) : Restore :=
  match restore, reply with
  | .reading, .state s =>
    match s.active with
    | none => .exit (.unavailable "no active deployment to restore")
    | some active =>
      if isValidDeploymentId active.deploymentId then .checking active
      else
        let e : AgentError :=
          .refusal .configInvalid "recorded active deployment was not restored" false
        .recording (some e.toRecord) .over
  | .reading, .failed e => .exit e
  | .checking active, .text artifact => .restaging active artifact
  | .checking active, .failed e => .refuse active e
  | .restaging active artifact, .text digest =>
    match active.descriptorIdentity with
    | .error _ => .refuse active (unusable "is not named")
    | .ok identity =>
      if bundleDigestsEqual digest active.bundleDigest then
        if identity.isSome then .naming active artifact
        else .bringingUp (referenceOf active (some artifact))
      else
        let e : AgentError := .refusal .loadFailed "another bundle is staged" false
        .recording (some e.toRecord) (.exit e)
  | .restaging active _, .failed e =>
    match active.descriptorIdentity with
    | .error _ => .refuse active (unusable "is not named")
    | .ok _ => .recording (some e.toRecord) (.exit e)
  | .naming active artifact, .taken (.identity identity) =>
    .bringingUp ((referenceOf active (some artifact)).naming identity)
  | .naming active _, .failed e =>
    match e with
    | .deploymentDescriptor _ _ => .refuse active e
    | _ => .recording (some e.toRecord) (.exit e)
  | .bringingUp _, .done => .recording none .over
  | .bringingUp _, .failed e =>
    let record := e.toRecord
    .recording (some { record with context := some (record.context.getD restoreFailure) }) (.owe e)
  | .recording _ after, .taken _ =>
    match after with
    | .over => .over
    | .exit e => .exit e
    | .owe e => .owing e
  | .recording _ _, .failed e => .exit e
  | .owing e, .answered yes => if yes then .over else .exit e
  | restore, _ => restore

/-! ## The errors of a write -/

/-- What the closures of the writes return is no `StateIndeterminate`. -/
def OwnError {α : Type} (x : Except AgentError α) : Prop :=
  ∀ e, x = .error e → e.isIndeterminate = false

section OwnError

variable {α : Type} {docs : Documents}

theorem OwnError.ok (a : α) : OwnError (.ok a : Except AgentError α) := by
  intro e h
  cases h

theorem OwnError.error {e : AgentError} (he : e.isIndeterminate = false) :
    OwnError (.error e : Except AgentError α) := by
  intro e' h
  cases h
  exact he

/-- A closure passes on the error of a call it makes. -/
theorem OwnError.passed {β : Type} {x : Except AgentError β} {e : AgentError} (hx : OwnError x)
    (h : x = .error e) : OwnError (.error e : Except AgentError α) :=
  .error (hx e h)

theorem Documents.ownError_write (docs : Documents) (id : String) (identity : DescriptorIdentity) :
    OwnError (docs.write id identity) := by
  unfold Documents.write
  split
  · exact .ok _
  · exact .error rfl

theorem Documents.ownError_restamped (docs : Documents) (id : String)
    (identity : DescriptorIdentity) (digest : String) (generation : ℕ) :
    OwnError (docs.restamped id identity digest generation) := by
  unfold Documents.restamped
  split
  · exact .error rfl
  · split
    · exact .error rfl
    · split
      · exact .error rfl
      · split
        · exact .error rfl
        · split
          · exact .error rfl
          · exact .ok _

theorem ownError_nameDeploy (id : String) (record : DeploymentRecord) (s : AgentState) :
    OwnError (nameDeploy docs id record s) := by
  unfold nameDeploy
  split
  · exact .error rfl
  · split
    · exact .error rfl
    · split
      · exact .error rfl
      · dsimp only
        split
        · exact .error rfl
        · split
          · rename_i hw
            exact (docs.ownError_write _ _).passed hw
          · exact .ok _

theorem ownError_nameRollback (id : String) (record : DeploymentRecord) (s : AgentState) :
    OwnError (nameRollback docs id record s) := by
  unfold nameRollback
  split
  · split
    · exact .error rfl
    · split
      · exact .error rfl
      · split
        · rename_i hre
          exact (docs.ownError_restamped _ _ _ _).passed hre
        · split
          · exact .error rfl
          · split
            · rename_i hw
              exact (docs.ownError_write _ _).passed hw
            · exact .ok _
  · exact .error rfl

theorem ownError_nameRestore (record : DeploymentRecord) (s : AgentState) :
    OwnError (nameRestore docs record s) := by
  unfold nameRestore
  split
  · split
    · exact .error rfl
    · split
      · exact .error rfl
      · split
        · rename_i hre
          exact (docs.ownError_restamped _ _ _ _).passed hre
        · split
          · rename_i hw
            exact (docs.ownError_write _ _).passed hw
          · exact .ok _
  · exact .error rfl

theorem ownError_restamp (recipe : CandidateRef) (generation : ℕ) (s : AgentState) :
    OwnError (restamp docs recipe generation s) := by
  unfold restamp
  split
  · split
    · exact .error rfl
    · split
      · rename_i hre
        exact (docs.ownError_restamped _ _ _ _).passed hre
      · split
        · rename_i hw
          exact (docs.ownError_write _ _).passed hw
        · exact .ok _
  · exact .error rfl

theorem ownError_namedAsItsDeploy (candidate : DeploymentRecord) (tx : Option TransactionRecord) :
    OwnError (namedAsItsDeploy candidate tx) := by
  unfold namedAsItsDeploy
  split
  · split
    · exact .ok _
    · exact .error rfl
  · exact .error rfl

theorem ownError_takeRollbackIdentity (previous : DeploymentRecord)
    (tx : Option TransactionRecord) : OwnError (takeRollbackIdentity previous tx) := by
  unfold takeRollbackIdentity
  split
  · exact .ok _
  · split
    · exact .ok _
    · exact .error rfl
  · exact .error rfl

theorem Write.ownError (docs : Documents) (write : Write) (s : AgentState) :
    OwnError (write.run docs s) := by
  cases write <;> simp only [Write.run]
  case beginTransaction =>
    split
    · split
      · exact .ok _
      · exact .error rfl
    · exact .ok _
  case recordPhase =>
    split
    · exact .error rfl
    · split
      · exact .error rfl
      · exact .ok _
  case nameDeploy => exact ownError_nameDeploy _ _ s
  case nameRollback => exact ownError_nameRollback _ _ s
  case promoteCandidate =>
    split
    · exact .error rfl
    · split
      · rename_i hn
        exact (ownError_namedAsItsDeploy _ _).passed hn
      · exact .ok _
  case swapActiveWithPrevious =>
    split
    · exact .error rfl
    · split
      · rename_i hn
        exact (ownError_takeRollbackIdentity _ _).passed hn
      · exact .ok _
  case quarantineInFlight =>
    split
    · exact .error rfl
    · exact .ok _
  case nameRestore => exact ownError_nameRestore _ s
  case restamp => exact ownError_restamp _ _ s
  case allocate =>
    split
    · exact .error rfl
    · exact .ok _
  all_goals exact .ok _

end OwnError

/-! ## The life of an agent -/

/-- The update a write hands to the store. -/
def Write.update (docs : Documents) (write : Write) : StateStore.StateUpdate Taken :=
  ⟨fun s => write.run docs s, fun s => write.ownError docs s⟩

/-- The writes of the agent's loop beside its requests: a restart takes a
generation and names it, and the failure of a restore is cleared. -/
def Write.ofMember : Write → Bool
  | .restamp _ _ | .allocate | .setLastError _ => true
  | _ => false

/-- What the agent's process is at. -/
inductive Job
  /-- `apply_startup`, before its settling write. -/
  | settling
  | restoring (restore : Restore)
  | idle
  | serving (request : Request)
  deriving DecidableEq, Repr

/-- The agent's process and its files, or the files alone. -/
inductive Life
  | down (files : StateDir)
  | up (store : StateStore) (job : Job)
  deriving DecidableEq, Repr

/-- A transaction, as the journal keeps it. -/
structure Entry where
  kind : TransactionKind
  /-- The state it began on. -/
  before : AgentState
  /-- The state its commit write found, once that write landed. -/
  landedOn : Option AgentState := none
  deriving DecidableEq, Repr

/-- Which transaction is open. -/
inductive Journal
  /-- No start has settled the directory yet. -/
  | foreign
  | clean
  | opened (entry : Entry)
  deriving DecidableEq, Repr

/-- The journal once a write made of `s` landed. -/
def Journal.wrote (journal : Journal) (s : AgentState) (write : Write) : Journal :=
  match write with
  | .beginTransaction record => .opened { kind := record.kind, before := s }
  | .promoteCandidate _ | .swapActiveWithPrevious _ =>
    match journal with
    | .opened entry => .opened { entry with landedOn := some s }
    | journal => journal
  | .endTransaction | .failTransaction _ | .quarantineInFlight _ _ | .clearCandidate => .clean
  | _ => journal

/-- **A write landed**: a start reads the state it wrote. -/
def lands (codec : StateCodec) (store : StateStore) (f : StateStore.StateUpdate Taken)
    (t : StateStore) : Bool :=
  match store.checked codec f, readFiles codec t.files with
  | .ok (_, next, _), .ok (s, _) => !store.indeterminate && decide (s = next)
  | _, _ => false

/-- The life of an agent, and the journal beside it. -/
structure History where
  life : Life
  journal : Journal := .foreign
  deriving DecidableEq, Repr

/-- What the environment answers at one step: the worker control and the
disk, the descriptor documents, the clock, and how a write ends. -/
structure Turn where
  reply : Reply := .done
  docs : Documents
  now : ℕ := 0
  ends : StateStore.FileSteps × StateStore.FileSteps := ({}, {})
  worker : Worker := {}

/-- A start or a kill, the arrival of a request, or the next step of what
the process is at; and the writes of the agent's loop between them. -/
inductive LifeAction
  | start
  | kill
  | settle (turn : Turn)
  | restore (turn : Turn)
  | deploy (transactionId deploymentId bundlePath : String) (labels : List (String × String))
      (correlationId : Option String) (streaming : Bool)
  | rollback (transactionId : String) (correlationId : Option String)
  | request (turn : Turn)
  | member (write : Write) (turn : Turn)

/-- No request is being served. -/
def Job.free : Job → Bool
  | .idle => true
  | .serving r =>
    match r.stage with
    | .finished _ => true
    | _ => false
  | _ => false

/-- What the process is at after a step of its restore, none once its
start failed. -/
def Restore.job : Restore → Option Job
  | .over => some .idle
  | .exit _ => none
  | restore => some (.restoring restore)

/-- The process after an answer, or its files once it has ended. -/
def Life.go (store : StateStore) : Option Job → Life
  | some job => .up store job
  | none => .down store.files

namespace History

variable (codec : StateCodec) (linux : Bool)

/-- **One write of the process**, and where the process goes on its
answer. -/
def write (h : History) (turn : Turn) (store : StateStore) (write : Write)
    (next : Reply → Option Job) : History :=
  let f := write.update turn.docs
  let (result, t) := store.update codec linux f turn.ends
  { life :=
      match result with
      | .killed => .down t.files
      | .returned (.ok taken) => .go t (next (.taken taken))
      | .returned (.error e) => .go t (next (.failed e))
    journal := if lands codec store f t then h.journal.wrote store.inner write else h.journal }

/-- A request arrives, where none is being served. -/
def arrive (h : History) (r : Request) : Option History :=
  match h.life with
  | .up store job => if job.free then some { h with life := .up store (.serving r) } else none
  | .down _ => none

/-- **One step of an agent's life.** -/
def step (h : History) : LifeAction → Option History
  | .start =>
    match h.life with
    | .down files =>
      match StateStore.openAt codec files with
      | .ok store => some { h with life := .up store .settling }
      | .error _ => none
    | .up _ _ => none
  | .kill =>
    match h.life with
    | .up store _ => some { h with life := .down store.files }
    | .down _ => none
  | .settle turn =>
    match h.life with
    | .up store .settling =>
      let job : Job := if restores store.inner turn.worker then .restoring .reading else .idle
      match settling store.inner turn.now with
      | none => some ⟨.up store job, .clean⟩
      | some write =>
        some (h.write codec linux turn store write fun
          | .taken _ => some job
          -- the process entrypoint ends the start
          | _ => none)
    | _ => none
  | .restore turn =>
    match h.life with
    | .up store (.restoring restore) =>
      match restore.op with
      | .idle => none
      | .write write =>
        some (h.write codec linux turn store write fun reply => (restore.resume reply).job)
      | .snapshot =>
        some { h with life := .go store (restore.resume (.state store.inner)).job }
      | _ => some { h with life := .go store (restore.resume turn.reply).job }
    | _ => none
  | .deploy transactionId deploymentId bundlePath labels correlationId streaming =>
    h.arrive (Request.deploy transactionId deploymentId bundlePath labels correlationId streaming)
  | .rollback transactionId correlationId => h.arrive (Request.rollback transactionId correlationId)
  | .request turn =>
    match h.life with
    | .up store (.serving r) =>
      match r.op turn.now with
      | .idle => none
      | .write write =>
        some (h.write codec linux turn store write fun reply => some (.serving (r.resume reply)))
      | .snapshot => some { h with life := .up store (.serving (r.resume (.state store.inner))) }
      | _ => some { h with life := .up store (.serving (r.resume turn.reply)) }
    | _ => none
  | .member write turn =>
    match h.life with
    -- the agent's loop runs once the start has settled
    | .up _ .settling => none
    | .up store job =>
      if write.ofMember then some (h.write codec linux turn store write fun _ => some job) else none
    | .down _ => none

/-- The files of the agent. -/
def files (h : History) : StateDir :=
  match h.life with
  | .down files => files
  | .up store _ => store.files

end History

end Agent

end Tensorplate
