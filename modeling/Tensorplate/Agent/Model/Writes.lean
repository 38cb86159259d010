import Tensorplate.Agent.Model.StateStore

/-!
# The writes of a transaction

The update closures the coordinator, a start and a restart hand to the
state store, one constructor each, and the descriptor documents some of
them read and write inside the update.
-/

namespace Tensorplate

namespace Agent

/-! ## References and descriptors -/

/-- `CandidateRef`: what the worker control is asked to prepare. -/
structure CandidateRef where
  deploymentId : String
  stagedPath : String
  bundleDigest : String
  backendHint : String
  modelClass : String
  bundleName : Option String := none
  bundleVersion : Option String := none
  artifactRelativePath : Option String := none
  generation : Option ℕ := none
  descriptorDigest : Option String := none
  configurationDigest : Option String := none
  streaming : Bool := false
  deriving DecidableEq, Repr

/-- `CandidateRef::descriptor_identity`. -/
def CandidateRef.descriptorIdentity (r : CandidateRef) :
    Except DescriptorIdentityError (Option DescriptorIdentity) :=
  DescriptorIdentity.fromFields r.generation r.descriptorDigest r.configurationDigest

/-- `reference_of`: the reference of a record before any descriptor is
named on it. -/
def referenceOf (record : DeploymentRecord) (artifactRelativePath : Option String) :
    CandidateRef where
  deploymentId := record.deploymentId
  stagedPath := record.stagedPath
  bundleDigest := record.bundleDigest
  backendHint := record.backendHint
  modelClass := record.modelClass
  bundleName := some record.bundleName
  bundleVersion := some record.bundleVersion
  artifactRelativePath := artifactRelativePath
  streaming := record.streaming

/-- The reference with a descriptor named on it. -/
def CandidateRef.naming (r : CandidateRef) (identity : DescriptorIdentity) : CandidateRef :=
  { r with
    generation := some identity.generation
    descriptorDigest := some identity.descriptorDigest
    configurationDigest := some identity.configurationDigest }

/-- The record with a descriptor named on it. -/
def DeploymentRecord.naming (r : DeploymentRecord) (identity : DescriptorIdentity) :
    DeploymentRecord :=
  { r with
    generation := some identity.generation
    descriptorDigest := some identity.descriptorDigest
    configurationDigest := some identity.configurationDigest }

/-- The transaction with a descriptor named on it. -/
def TransactionRecord.naming (tx : TransactionRecord) (identity : DescriptorIdentity) :
    TransactionRecord :=
  { tx with
    generation := some identity.generation
    descriptorDigest := some identity.descriptorDigest
    configurationDigest := some identity.configurationDigest }

/-- `split_digest`. -/
def splitDigest (d : String) : Option (List Char × List Char) :=
  match d.toList.dropWhile (· ≠ ':') with
  | [] => none
  | _ :: hex => some ((d.toList.takeWhile (· ≠ ':')).map Char.toLower, hex.map Char.toLower)

/-- `bundle_digests_equal`: equal but for case, and false of a text that
is no digest. -/
def bundleDigestsEqual (a b : String) : Bool :=
  match splitDigest a, splitDigest b with
  | some x, some y => x == y
  | _, _ => false

/-- `DeploymentDescriptor`, as far as the agent's state reads it. -/
structure DeploymentDescriptor where
  deploymentId : String
  identity : DescriptorIdentity
  bundleDigest : String
  deriving DecidableEq, Repr

/-- The descriptor documents beside the state, and what deriving and
digesting a descriptor answers. -/
structure Documents where
  /-- The document of a deployment's generation, read and verified. -/
  read : String → ℕ → Except String DeploymentDescriptor
  /-- `computed_descriptor_digest` of a descriptor stamped for a generation. -/
  digest : DeploymentDescriptor → ℕ → Except String String
  /-- `DeploymentDescriptor::derive`: the two digests for a generation. -/
  derive : String → ℕ → Except (ErrorCode × String) (String × String)
  /-- Whether the document of a generation fails to be written. -/
  writeFails : String → ℕ → Option String

/-- `unusable`. -/
def unusable (message : String) : AgentError := .deploymentDescriptor .loadFailed message

/-- `DescriptorStore::restamped`: the named descriptor for a later
generation of the same configuration. -/
def Documents.restamped (docs : Documents) (deploymentId : String) (identity : DescriptorIdentity)
    (bundleDigest : String) (generation : ℕ) : Except AgentError DescriptorIdentity :=
  match docs.read deploymentId identity.generation with
  | .error e => .error (unusable e)
  | .ok current =>
    if current.deploymentId ≠ deploymentId ∨ current.identity ≠ identity then
      .error (unusable "is another descriptor")
    else if bundleDigestsEqual current.bundleDigest bundleDigest = false then
      .error (unusable "is not re-stamped: it describes another bundle")
    else if generation ≤ current.identity.generation then
      .error (unusable "is not re-stamped: the generation is not newer")
    else
      match docs.digest current generation with
      | .error e => .error (unusable e)
      | .ok digest => .ok ⟨generation, digest, current.identity.configurationDigest⟩

/-- `DescriptorStore::write`, inside the update that names the descriptor. -/
def Documents.write (docs : Documents) (deploymentId : String) (identity : DescriptorIdentity) :
    Except AgentError Unit :=
  match docs.writeFails deploymentId identity.generation with
  | none => .ok ()
  | some e => .error (.io e)

/-! ## The store's updates -/

/-- **One update of the state store**, by the closure it runs. -/
inductive Write
  | beginTransaction (record : TransactionRecord)
  | recordPhase (transactionId : String) (phase : DeployState) (now : ℕ)
  /-- The verified digest, recorded on the transaction. -/
  | recordDigest (digest : String)
  | recordCandidate (candidate : DeploymentRecord)
  /-- `start_deploy`'s update. -/
  | nameDeploy (transactionId : String) (record : DeploymentRecord)
  /-- `start_again`'s update for a rollback. -/
  | nameRollback (transactionId : String) (record : DeploymentRecord)
  | promoteCandidate (now : ℕ)
  | swapActiveWithPrevious (now : ℕ)
  | endTransaction
  | failTransaction (error : ErrorRecord)
  | quarantineInFlight (error : ErrorRecord) (now : ℕ)
  | clearCandidate
  | setLastError (error : Option ErrorRecord)
  /-- `start_again`'s update for a restore at a start. -/
  | nameRestore (record : DeploymentRecord)
  /-- `restart_stamp`'s update. -/
  | restamp (recipe : CandidateRef) (generation : ℕ)
  /-- `durable_generations`. -/
  | allocate
  deriving DecidableEq, Repr

/-- `record_commit`. -/
def recordCommit (now : ℕ) (tx : TransactionRecord) : TransactionRecord :=
  { tx with phase := .promoted, lastTransitionMonotonicNs := some now }

/-- The identity a transaction of this kind and deployment names. -/
def namedBy (kind : TransactionKind) (deploymentId : String) (tx : Option TransactionRecord) :
    Except DescriptorIdentityError (Option DescriptorIdentity) :=
  match tx.filter fun tx => tx.kind = kind ∧ tx.deploymentId = deploymentId with
  | none => .ok none
  | some tx => tx.descriptorIdentity

/-- `named_as_its_deploy`. -/
def namedAsItsDeploy (candidate : DeploymentRecord) (tx : Option TransactionRecord) :
    Except AgentError Unit :=
  match namedBy .deploy candidate.deploymentId tx, candidate.descriptorIdentity with
  | .ok deploy, .ok recorded =>
    if recorded = deploy then .ok () else .error (.internal "promotion refused")
  | _, _ => .error (.internal "promotion refused")

/-- `take_rollback_identity`: the record a rollback puts back, under the
identity its transaction names. -/
def takeRollbackIdentity (previous : DeploymentRecord) (tx : Option TransactionRecord) :
    Except AgentError DeploymentRecord :=
  match previous.descriptorIdentity, namedBy .rollback previous.deploymentId tx with
  | .ok none, .ok none => .ok previous
  | .ok (some recorded), .ok (some started) =>
    if recorded.generation < started.generation ∧
        started.configurationDigest = recorded.configurationDigest then
      .ok { previous with
        generation := some started.generation
        descriptorDigest := some started.descriptorDigest }
    else .error (.internal "rollback refused")
  | _, _ => .error (.internal "rollback refused")

/-- `MAX_QUARANTINE`. -/
def maxQuarantine : ℕ := 32

/-- What a write answers: the generation or identity it took, if any. -/
inductive Taken
  | nothing
  | identity (identity : DescriptorIdentity)
  | generation (generation : ℕ)
  deriving DecidableEq, Repr

/-- `start_deploy`'s closure. -/
def nameDeploy (docs : Documents) (transactionId : String) (record : DeploymentRecord)
    (s : AgentState) : Except AgentError (Taken × AgentState) :=
  if s.candidate ≠ some record then
    .error (unusable "is not derived: the candidate record is not its deploy's")
  else
    match s.allocateGeneration 1 with
    | none => .error (unusable "is not derived: the generation counter is exhausted")
    | some (generation, s) =>
      match docs.derive record.deploymentId generation with
      | .error (code, message) => .error (.deploymentDescriptor code message)
      | .ok (descriptorDigest, configurationDigest) =>
        let derived : DescriptorIdentity := ⟨generation, descriptorDigest, configurationDigest⟩
        match s.inFlightTransaction.filter fun tx =>
            tx.transactionId = transactionId ∧ tx.kind = .deploy ∧
              tx.deploymentId = record.deploymentId with
        | none => .error (unusable "is not derived: its deploy transaction is not in flight")
        | some tx =>
          match docs.write record.deploymentId derived with
          | .error e => .error e
          | .ok () =>
            .ok (.identity derived, { s with
              candidate := some (record.naming derived)
              inFlightTransaction := some (tx.naming derived) })

/-- `start_again`'s closure for a rollback. -/
def nameRollback (docs : Documents) (transactionId : String) (record : DeploymentRecord)
    (s : AgentState) : Except AgentError (Taken × AgentState) :=
  match record.descriptorIdentity with
  | .ok (some identity) =>
    if s.previousActive ≠ some record then
      .error (unusable "is not re-stamped: the previous active deployment record does not name it")
    else
      match s.allocateGeneration 1 with
      | none => .error (unusable "is not re-stamped: the generation counter is exhausted")
      | some (generation, s) =>
        match docs.restamped record.deploymentId identity record.bundleDigest generation with
        | .error e => .error e
        | .ok next =>
          match s.inFlightTransaction.filter fun tx =>
              tx.transactionId = transactionId ∧ tx.kind = .rollback ∧
                tx.deploymentId = record.deploymentId with
          | none => .error (unusable "is not re-stamped: its rollback transaction is not in flight")
          | some tx =>
            match docs.write record.deploymentId next with
            | .error e => .error e
            | .ok () =>
              .ok (.identity next, { s with inFlightTransaction := some (tx.naming next) })
  | _ => .error (unusable "is not named")

/-- `start_again`'s closure for a restore. -/
def nameRestore (docs : Documents) (record : DeploymentRecord) (s : AgentState) :
    Except AgentError (Taken × AgentState) :=
  match record.descriptorIdentity with
  | .ok (some identity) =>
    if s.active ≠ some record then
      .error (unusable "is not re-stamped: the active deployment record does not name it")
    else
      match s.allocateGeneration 1 with
      | none => .error (unusable "is not re-stamped: the generation counter is exhausted")
      | some (generation, s) =>
        match docs.restamped record.deploymentId identity record.bundleDigest generation with
        | .error e => .error e
        | .ok next =>
          match docs.write record.deploymentId next with
          | .error e => .error e
          | .ok () => .ok (.identity next, { s with active := some (record.naming next) })
  | _ => .error (unusable "is not named")

/-- `restart_stamp`'s closure: the restart of a described recipe names its
generation on the active record that names the recipe's descriptor. -/
def restamp (docs : Documents) (recipe : CandidateRef) (generation : ℕ) (s : AgentState) :
    Except AgentError (Taken × AgentState) :=
  match recipe.descriptorIdentity with
  | .ok (some identity) =>
    match s.active.filter fun active =>
        active.deploymentId = recipe.deploymentId ∧
          active.descriptorIdentity = .ok (some identity) with
    | none => .error (unusable "is not re-stamped: the active deployment record does not name it")
    | some active =>
      match docs.restamped recipe.deploymentId identity recipe.bundleDigest generation with
      | .error e => .error e
      | .ok next =>
        match docs.write recipe.deploymentId next with
        | .error e => .error e
        | .ok () => .ok (.identity next, { s with active := some (active.naming next) })
  | _ => .error (unusable "is not named")

/-- **The closure of each write.** -/
def Write.run (docs : Documents) (s : AgentState) :
    Write → Except AgentError (Taken × AgentState)
  | .beginTransaction record =>
    match s.inFlightTransaction with
    | some existing =>
      if existing.phase.isTerminal then
        .ok (.nothing, { s with inFlightTransaction := some record })
      else .error (.busy existing.transactionId)
    | none => .ok (.nothing, { s with inFlightTransaction := some record })
  | .recordPhase transactionId phase now =>
    match s.inFlightTransaction with
    | none => .error (.internal ("record_phase " ++ transactionId ++ ": no in-flight transaction"))
    | some tx =>
      if tx.transactionId ≠ transactionId then
        .error (.internal ("record_phase " ++ transactionId ++ ": id mismatch (" ++
          tx.transactionId ++ " in flight)"))
      else
        .ok (.nothing, { s with
          inFlightTransaction :=
            some { tx with phase := phase, lastTransitionMonotonicNs := some now } })
  | .recordDigest digest =>
    .ok (.nothing, { s with
      inFlightTransaction := s.inFlightTransaction.map fun tx =>
        { tx with bundleDigest := some digest } })
  | .recordCandidate candidate => .ok (.nothing, { s with candidate := some candidate })
  | .nameDeploy transactionId record => Agent.nameDeploy docs transactionId record s
  | .nameRollback transactionId record => Agent.nameRollback docs transactionId record s
  | .promoteCandidate now =>
    match s.candidate with
    | none => .error (.internal "promote_candidate called with no candidate")
    | some candidate =>
      match namedAsItsDeploy candidate s.inFlightTransaction with
      | .error e => .error e
      | .ok () =>
        .ok (.nothing, { s with
          candidate := none
          inFlightTransaction := s.inFlightTransaction.map (recordCommit now)
          previousActive := s.active
          active := some { candidate with promotedMonotonicNs := some now } })
  | .swapActiveWithPrevious now =>
    match s.previousActive with
    | none => .error (.unavailable "no previous active deployment")
    | some previous =>
      match takeRollbackIdentity previous s.inFlightTransaction with
      | .error e => .error e
      | .ok previous =>
        .ok (.nothing, { s with
          inFlightTransaction := s.inFlightTransaction.map (recordCommit now)
          previousActive := s.active
          active := some { previous with promotedMonotonicNs := some now } })
  | .endTransaction =>
    .ok (.nothing, { s with inFlightTransaction := none, candidate := none, lastError := none })
  | .failTransaction error =>
    .ok (.nothing, { s with
      inFlightTransaction := none, candidate := none, lastError := some error })
  | .quarantineInFlight error now =>
    match s.inFlightTransaction with
    | none => .error (.internal "quarantine_in_flight called with no in-flight transaction")
    | some tx =>
      let quarantined := s.quarantined ++ [{
        transactionId := tx.transactionId
        deploymentId := tx.deploymentId
        bundleDigest := tx.bundleDigest
        phase := tx.phase
        error := error
        quarantinedMonotonicNs := some now }]
      .ok (.nothing, { s with
        inFlightTransaction := none
        candidate := none
        lastError := some error
        quarantined := quarantined.drop (quarantined.length - maxQuarantine) })
  | .clearCandidate => .ok (.nothing, { s with candidate := none })
  | .setLastError error => .ok (.nothing, { s with lastError := error })
  | .nameRestore record => Agent.nameRestore docs record s
  | .restamp recipe generation => Agent.restamp docs recipe generation s
  | .allocate =>
    match s.allocateGeneration 1 with
    | none => .error (.internal "allocate deployment generation: the generation counter is exhausted")
    | some (generation, s) => .ok (.generation generation, s)

end Agent

end Tensorplate
