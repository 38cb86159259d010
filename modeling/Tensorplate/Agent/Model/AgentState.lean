import Mathlib.Data.Nat.Notation
import Tensorplate.Core.Error

/-!
# The durable agent state

The record the agent keeps on disk: the active, previous and candidate
deployments, the transaction in flight, the generation counter and the
resident set, with the checks a reader and a writer make of it. Counters
are unbounded naturals; the checks keep them below `maxStateCounter`.
-/

namespace Tensorplate

namespace Agent

/-- `MAX_STATE_COUNTER`: the largest integer a JSON number carries exactly. -/
def maxStateCounter : ℕ := 2 ^ 53 - 1

/-- The two versions of the state file. -/
inductive SchemaVersion
  /-- `AGENT_STATE_SCHEMA_VERSION_LEGACY`, "0.1". -/
  | legacy
  /-- `AGENT_STATE_SCHEMA_VERSION_RESIDENT_SET`, "0.2". -/
  | residentSet
  deriving DecidableEq, Repr

/-- `DeployState`. -/
inductive DeployState
  | received
  | verified
  | staged
  | capacityChecked
  | prepared
  | warmed
  | promoted
  | active
  | failed
  | rolledBack
  deriving DecidableEq, Repr

/-- `DeployState::is_terminal`. -/
def DeployState.isTerminal : DeployState → Bool
  | .active | .failed | .rolledBack => true
  | _ => false

/-- `TransactionKind`. -/
inductive TransactionKind
  | deploy
  | rollback
  deriving DecidableEq, Repr

/-! ## Descriptor identities -/

/-- `DescriptorIdentity`: the descriptor verified for one generation. -/
structure DescriptorIdentity where
  generation : ℕ
  descriptorDigest : String
  configurationDigest : String
  deriving DecidableEq, Repr

/-- `DescriptorIdentityError`. -/
inductive DescriptorIdentityError
  /-- Some of the three fields are there and some are not. -/
  | incomplete
  | generationOutOfRange (generation : ℕ)
  | invalidDigest (field : String)
  deriving DecidableEq, Repr

def isAsciiHexdigit (c : Char) : Bool :=
  c.isDigit || ('a' ≤ c && c ≤ 'f') || ('A' ≤ c && c ≤ 'F')

/-- `looks_like_digest`: `<algorithm>:<hex>`. -/
def looksLikeDigest (d : String) : Bool :=
  let algo := d.toList.takeWhile (· ≠ ':')
  match d.toList.dropWhile (· ≠ ':') with
  | [] => false
  | _ :: hex =>
    !algo.isEmpty && algo.all (fun c => ('a' ≤ c && c ≤ 'z') || c.isDigit || c == '-') &&
      !hex.isEmpty && hex.all isAsciiHexdigit

/-- `DescriptorIdentity::from_fields`: all three fields or none. -/
def DescriptorIdentity.fromFields (generation : Option ℕ)
    (descriptorDigest configurationDigest : Option String) :
    Except DescriptorIdentityError (Option DescriptorIdentity) :=
  match generation, descriptorDigest, configurationDigest with
  | none, none, none => .ok none
  | some generation, some descriptor, some configuration =>
    if ¬(1 ≤ generation ∧ generation ≤ maxStateCounter) then
      .error (.generationOutOfRange generation)
    else if looksLikeDigest descriptor = false then
      .error (.invalidDigest "descriptor_digest")
    else if looksLikeDigest configuration = false then
      .error (.invalidDigest "configuration_digest")
    else .ok (some ⟨generation, descriptor, configuration⟩)
  | _, _, _ => .error .incomplete

/-! ## Records -/

/-- `DeploymentRecord`: an active, previous active or candidate deployment. -/
structure DeploymentRecord where
  deploymentId : String
  bundleDigest : String
  bundleName : String
  bundleVersion : String
  backendHint : String
  modelClass : String
  stagedPath : String
  promotedMonotonicNs : Option ℕ := none
  labels : List (String × String) := []
  generation : Option ℕ := none
  descriptorDigest : Option String := none
  configurationDigest : Option String := none
  streaming : Bool := false
  deriving DecidableEq, Repr

/-- `DeploymentRecord::descriptor_identity`. -/
def DeploymentRecord.descriptorIdentity (r : DeploymentRecord) :
    Except DescriptorIdentityError (Option DescriptorIdentity) :=
  DescriptorIdentity.fromFields r.generation r.descriptorDigest r.configurationDigest

/-- `ErrorRecord`. -/
structure ErrorRecord where
  code : ErrorCode
  message : String
  recoverable : Bool := false
  context : Option String := none
  deriving DecidableEq, Repr

/-- `TransactionRecord`: the journal entry of the transaction in flight. -/
structure TransactionRecord where
  transactionId : String
  deploymentId : String
  phase : DeployState
  kind : TransactionKind
  bundleDigest : Option String := none
  bundlePath : Option String := none
  correlationId : Option String := none
  startedMonotonicNs : Option ℕ := none
  lastTransitionMonotonicNs : Option ℕ := none
  failure : Option ErrorRecord := none
  generation : Option ℕ := none
  descriptorDigest : Option String := none
  configurationDigest : Option String := none
  deriving DecidableEq, Repr

/-- `TransactionRecord::descriptor_identity`. -/
def TransactionRecord.descriptorIdentity (tx : TransactionRecord) :
    Except DescriptorIdentityError (Option DescriptorIdentity) :=
  DescriptorIdentity.fromFields tx.generation tx.descriptorDigest tx.configurationDigest

/-- `QuarantineRecord`. -/
structure QuarantineRecord where
  transactionId : String
  deploymentId : String
  bundleDigest : Option String := none
  phase : DeployState
  error : ErrorRecord
  quarantinedMonotonicNs : Option ℕ := none
  deriving DecidableEq, Repr

/-! ## The resident set -/

/-- `AdmissionMode`. -/
inductive AdmissionMode
  | production
  | qualification
  deriving DecidableEq, Repr

/-- `MemberState`. -/
inductive MemberState
  | serving
  | quarantined
  deriving DecidableEq, Repr

/-- `DomainQuotaBytes`. -/
structure DomainQuotaBytes where
  sharedPool : Option ℕ := none
  guestRam : Option ℕ := none
  deviceVram : Option ℕ := none
  deriving DecidableEq, Repr

/-- `MemberQuota`. -/
structure MemberQuota where
  sessionCount : ℕ := 0
  domainBytes : DomainQuotaBytes := {}
  deriving DecidableEq, Repr

/-- `MAX_MEMBER_SESSIONS`. -/
def maxMemberSessions : ℕ := 2048

/-- `MemberQuota::validate`, as whether it passes. -/
def MemberQuota.valid (q : MemberQuota) : Bool :=
  !(q.domainBytes.sharedPool.isSome &&
      (q.domainBytes.guestRam.isSome || q.domainBytes.deviceVram.isSome)) &&
    q.sessionCount ≤ maxMemberSessions &&
    !(0 < q.sessionCount && q.domainBytes.sharedPool.isNone && q.domainBytes.guestRam.isNone &&
      q.domainBytes.deviceVram.isNone)

/-- `RetainedGeneration`. -/
structure RetainedGeneration where
  deploymentId : String
  generation : ℕ
  bundleDigest : String
  descriptorDigest : String
  configurationDigest : String
  admissionMode : AdmissionMode
  quota : MemberQuota
  stagedPath : String
  bundleName : String
  bundleVersion : String
  backendHint : String
  modelClass : String
  promotedMonotonicNs : Option ℕ
  labels : List (String × String)
  deriving DecidableEq, Repr

/-- `ResidentMember`. -/
structure ResidentMember extends RetainedGeneration where
  state : MemberState
  previous : Option RetainedGeneration
  deriving DecidableEq, Repr

/-- `EndpointEntry`. -/
structure EndpointEntry where
  deploymentId : String
  generation : ℕ
  unaryEndpoint : Option String
  streamEndpoint : Option String
  deriving DecidableEq, Repr

/-- `ResidentSet`. -/
structure ResidentSet where
  setId : String
  revision : ℕ
  members : List ResidentMember
  endpointMap : List EndpointEntry
  deriving DecidableEq, Repr

/-- `ResidentSet::generations`: members and their retained generations. -/
def ResidentSet.generations (set : ResidentSet) : List ℕ :=
  set.members.flatMap fun m => m.generation :: (m.previous.map (·.generation)).toList

/-- `is_valid_deployment_id`. -/
def isValidDeploymentId (value : String) : Bool :=
  1 ≤ value.utf8ByteSize && value.utf8ByteSize ≤ 128 && value ≠ "." && value ≠ ".." &&
    value.toList.all fun c => c.isAlphanum || c == '-' || c == '_' || c == '.'

/-- `validate_generation_record`: the generations seen so far with this
one added, none where the record breaks a rule. -/
def validateGenerationRecord (r : RetainedGeneration) (nextGeneration : ℕ) (seen : List ℕ) :
    Option (List ℕ) :=
  if isValidDeploymentId r.deploymentId && 0 < r.generation && r.generation < nextGeneration &&
      !seen.contains r.generation && looksLikeDigest r.bundleDigest &&
      looksLikeDigest r.descriptorDigest && looksLikeDigest r.configurationDigest &&
      r.stagedPath.startsWith "/" && r.quota.valid then
    some (r.generation :: seen)
  else none

/-- The loop of `ResidentSet::validate` over the members. -/
def validateMembers (nextGeneration : ℕ) :
    List ResidentMember → List String → List ℕ → Bool
  | [], _, _ => true
  | m :: ms, ids, seen =>
    match validateGenerationRecord m.toRetainedGeneration nextGeneration seen with
    | none => false
    | some seen =>
      if ids.contains m.deploymentId then false
      else
        match m.previous with
        | none => validateMembers nextGeneration ms (m.deploymentId :: ids) seen
        | some previous =>
          match validateGenerationRecord previous nextGeneration seen with
          | none => false
          | some seen =>
            decide (previous.generation < m.generation) &&
              validateMembers nextGeneration ms (m.deploymentId :: ids) seen

/-- `ResidentSet::validate_endpoint_map`: one entry for each serving
member, in member order. -/
def validateEndpointMap : List ResidentMember → List EndpointEntry → Bool
  | [], [] => true
  | m :: ms, e :: es =>
    e.deploymentId == m.deploymentId && e.generation == m.generation &&
      (e.unaryEndpoint.isSome || e.streamEndpoint.isSome) &&
      e.unaryEndpoint != some "" && e.streamEndpoint != some "" && validateEndpointMap ms es
  | _, _ => false

/-- `ResidentSet::validate`, as whether it passes. -/
def ResidentSet.valid (set : ResidentSet) (nextGeneration : ℕ) : Bool :=
  isValidDeploymentId set.setId && 1 ≤ set.revision && set.revision ≤ maxStateCounter &&
    validateMembers nextGeneration set.members [] [] &&
    validateEndpointMap (set.members.filter (·.state == .serving)) set.endpointMap

/-! ## The state -/

/-- `AgentState`: the root durable record. -/
structure AgentState where
  schemaVersion : SchemaVersion := .legacy
  storeVersion : ℕ
  active : Option DeploymentRecord := none
  previousActive : Option DeploymentRecord := none
  candidate : Option DeploymentRecord := none
  inFlightTransaction : Option TransactionRecord := none
  lastError : Option ErrorRecord := none
  quarantined : List QuarantineRecord := []
  nextGeneration : Option ℕ := none
  residentSet : Option ResidentSet := none
  deriving DecidableEq, Repr

namespace AgentState

/-- `AgentState::fresh`. -/
def fresh : AgentState := { storeVersion := 1 }

/-- `descriptor_identities`: each record that may carry a descriptor
identity, with what it carries. -/
def descriptorIdentities (s : AgentState) :
    List (Except DescriptorIdentityError (Option DescriptorIdentity)) :=
  ([s.active, s.previousActive, s.candidate].filterMap id).map (·.descriptorIdentity) ++
    (s.inFlightTransaction.map (·.descriptorIdentity)).toList

/-- `names_a_descriptor`: some record carries a field of an identity. -/
def namesADescriptor (s : AgentState) : Bool :=
  s.descriptorIdentities.any fun
    | .ok none => false
    | _ => true

/-- `streams`. -/
def streams (s : AgentState) : Bool :=
  ([s.active, s.previousActive, s.candidate].filterMap id).any (·.streaming)

/-- `error_code_is_legacy`: what an agent through 0.2.x decodes. -/
def errorCodeIsLegacy : ErrorCode → Bool
  | .cancelled | .unavailable | .resourceExhausted => false
  | _ => true

/-- `uses_only_legacy_vocabulary`. Every phase and transaction kind is of
the legacy vocabulary, so only the error codes decide. -/
def usesOnlyLegacyVocabulary (s : AgentState) : Bool :=
  s.lastError.all (fun e => errorCodeIsLegacy e.code) &&
    s.inFlightTransaction.all (fun tx => tx.failure.all fun e => errorCodeIsLegacy e.code) &&
    s.quarantined.all fun q => errorCodeIsLegacy q.error.code

/-- `required_schema_version`: the oldest version whose readers decode
the state without loss. -/
def requiredSchemaVersion (s : AgentState) : SchemaVersion :=
  if s.nextGeneration.isSome || s.residentSet.isSome || s.namesADescriptor || s.streams ||
      !s.usesOnlyLegacyVocabulary then .residentSet
  else .legacy

/-- `allocate_generation`: the generation handed out and the state with
the counter past it, none once the counter is exhausted. -/
def allocateGeneration (s : AgentState) (floor : ℕ) : Option (ℕ × AgentState) :=
  let generation := max (max (s.nextGeneration.getD 1) floor) 1
  if generation ≥ maxStateCounter then none
  else some (generation, { s with nextGeneration := some (generation + 1) })

/-- `AgentStateError`, of the checks a successor must pass. -/
inductive SuccessorError
  | generationCounterRemoved
  | generationCounterLowered (before after : ℕ)
  | residentSetRemoved
  | setIdChanged (before after : String)
  | revisionNotAdvanced (before after : ℕ)
  | generationReissued (generation newest : ℕ)
  deriving DecidableEq, Repr

/-- The generation counter is never removed or lowered. -/
def validateCounter (s next : AgentState) : Except SuccessorError Unit :=
  match s.nextGeneration, next.nextGeneration with
  | none, _ => .ok ()
  | some _, none => .error .generationCounterRemoved
  | some counter, some n =>
    if n < counter then .error (.generationCounterLowered counter n) else .ok ()

/-- A resident set is never removed or renamed, advances its revision
when it changes and takes on no retired generation. -/
def validateSetSuccessor (set next : ResidentSet) : Except SuccessorError Unit :=
  if next.setId ≠ set.setId then .error (.setIdChanged set.setId next.setId)
  else
    let changed := next.members ≠ set.members ∨ next.endpointMap ≠ set.endpointMap
    if next.revision < set.revision ∨ (changed ∧ next.revision = set.revision) then
      .error (.revisionNotAdvanced set.revision next.revision)
    else
      match set.generations.max? with
      | none => .ok ()
      | some newest =>
        match next.generations.find? fun g => !set.generations.contains g && g < newest with
        | some reissued => .error (.generationReissued reissued newest)
        | none => .ok ()

/-- `validate_successor`. -/
def validateSuccessor (s next : AgentState) : Except SuccessorError Unit :=
  match validateCounter s next with
  | .error e => .error e
  | .ok () =>
    match s.residentSet, next.residentSet with
    | none, _ => .ok ()
    | some _, none => .error .residentSetRemoved
    | some set, some nextSet => validateSetSuccessor set nextSet

/-- The identity a record carries is whole or absent, and names a
generation the counter handed out. -/
def identityAllocated (s : AgentState) :
    Except DescriptorIdentityError (Option DescriptorIdentity) → Bool
  | .error _ => false
  | .ok none => true
  | .ok (some identity) => identity.generation < s.nextGeneration.getD 1

/-- `validate_state`, as whether it passes. -/
def valid (s : AgentState) : Bool :=
  s.storeVersion != 0 &&
    !(s.schemaVersion == .legacy && s.requiredSchemaVersion != .legacy) &&
    s.nextGeneration.all (fun n => 1 ≤ n && n ≤ maxStateCounter) &&
    s.descriptorIdentities.all s.identityAllocated &&
    s.residentSet.all fun set =>
      s.active.isNone && s.previousActive.isNone && s.candidate.isNone &&
        match s.nextGeneration with
        | none => false
        | some counter => set.valid counter

end AgentState

end Agent

end Tensorplate
