import Tensorplate.Agent.Model.Coordinator
import Tensorplate.Agent.StateStore

/-!
# What a request relies on

From its `begin_transaction` to the write that ends it a request relies on
the store: its transaction is in flight, the record it works on stands in
its slot, and what it hands to the worker control is a reference to that
record. `Request.Expects` says so stage by stage; each step of the request
keeps it (`Expects.wrote`, `Expects.asked`), whatever the answers.
-/

namespace Tensorplate

namespace Agent

open StateStore

/-! ## Writes -/

@[simp] theorem stamp_active (s : AgentState) : (stamp s).active = s.active := rfl
@[simp] theorem stamp_previousActive (s : AgentState) :
    (stamp s).previousActive = s.previousActive := rfl
@[simp] theorem stamp_candidate (s : AgentState) : (stamp s).candidate = s.candidate := rfl
@[simp] theorem stamp_inFlightTransaction (s : AgentState) :
    (stamp s).inFlightTransaction = s.inFlightTransaction := rfl
@[simp] theorem stamp_nextGeneration (s : AgentState) :
    (stamp s).nextGeneration = s.nextGeneration := rfl

/-- **How a write answers**: refused with nothing changed, or landed with
the closure's result, stamped and valid. -/
inductive Wrote (docs : Documents) (write : Write) (s : AgentState) : Reply → AgentState → Prop
  | refused (e : AgentError) : Wrote docs write s (.failed e) s
  | landed {taken : Taken} {changed : AgentState}
      (hrun : write.run docs s = .ok (taken, changed)) (hv : (stamp changed).valid = true) :
      Wrote docs write s (.taken taken) (stamp changed)

theorem wrote_of_tryWrite {env : Env} {write : Write} {s s' : AgentState} {reply : Reply}
    (h : tryWrite env write s = (reply, s')) : Wrote env.docs write s reply s' := by
  unfold tryWrite at h
  split at h
  · rw [Prod.mk.injEq] at h
    obtain ⟨rfl, rfl⟩ := h
    exact .refused _
  · split at h
    · rw [Prod.mk.injEq] at h
      obtain ⟨rfl, rfl⟩ := h
      exact .refused _
    · rename_i taken changed hrun
      dsimp only at h
      split at h
      · rw [Prod.mk.injEq] at h
        obtain ⟨rfl, rfl⟩ := h
        exact .refused _
      · split at h
        · rename_i hv
          rw [Prod.mk.injEq] at h
          obtain ⟨rfl, rfl⟩ := h
          exact .landed hrun hv
        · rw [Prod.mk.injEq] at h
          obtain ⟨rfl, rfl⟩ := h
          exact .refused _

/-- The identity a transaction names for a deployment of its kind. -/
theorem namedBy_some (kind : TransactionKind) (id : String) (tx : TransactionRecord) :
    namedBy kind id (some tx) =
      if tx.kind = kind ∧ tx.deploymentId = id then tx.descriptorIdentity else .ok none := by
  by_cases h : tx.kind = kind ∧ tx.deploymentId = id <;> simp [namedBy, Option.filter, h]

/-- What `record_phase` does. -/
theorem run_recordPhase {docs : Documents} {s changed : AgentState} {id : String}
    {phase : DeployState} {now : ℕ} {taken : Taken}
    (h : Write.run docs s (.recordPhase id phase now) = .ok (taken, changed)) :
    ∃ tx, s.inFlightTransaction = some tx ∧ tx.transactionId = id ∧ changed = { s with
      inFlightTransaction := some { tx with phase := phase, lastTransitionMonotonicNs := some now } } := by
  simp only [Write.run] at h
  split at h
  · cases h
  · rename_i tx htx
    split at h
    · cases h
    · rename_i hid
      simp only [Except.ok.injEq, Prod.mk.injEq] at h
      exact ⟨tx, htx, not_not.1 hid, h.2.symm⟩

/-- What `begin_transaction` does, beside a transaction that has not ended. -/
theorem run_beginTransaction {docs : Documents} {s changed : AgentState}
    {record : TransactionRecord} {taken : Taken}
    (hs : ∀ tx, s.inFlightTransaction = some tx → tx.phase.isTerminal = false)
    (h : Write.run docs s (.beginTransaction record) = .ok (taken, changed)) :
    s.inFlightTransaction = none ∧ changed = { s with inFlightTransaction := some record } := by
  simp only [Write.run] at h
  split at h
  · rename_i tx htx
    rw [if_neg (by rw [hs tx htx]; simp)] at h
    cases h
  · rename_i hnone
    simp only [Except.ok.injEq, Prod.mk.injEq] at h
    exact ⟨hnone, h.2.symm⟩

/-- `allocate_generation` moves the counter only. -/
theorem allocateGeneration_eq {s next : AgentState} {floor generation : ℕ}
    (h : s.allocateGeneration floor = some (generation, next)) :
    next = { s with nextGeneration := some (generation + 1) } := by
  unfold AgentState.allocateGeneration at h
  dsimp only at h
  split at h
  · cases h
  · simp only [Option.some.injEq, Prod.mk.injEq] at h
    rw [← h.2, h.1]

/-- It gives a generation the counter has not given yet. -/
theorem le_of_allocateGeneration {s next : AgentState} {floor generation : ℕ}
    (h : s.allocateGeneration floor = some (generation, next)) :
    s.nextGeneration.getD 1 ≤ generation := by
  unfold AgentState.allocateGeneration at h
  dsimp only at h
  split at h
  · cases h
  · simp only [Option.some.injEq, Prod.mk.injEq] at h
    omega

/-- A re-stamped descriptor is a later generation of the same
configuration. -/
theorem Documents.restamped_spec {docs : Documents} {id digest : String}
    {identity next : DescriptorIdentity} {generation : ℕ}
    (h : docs.restamped id identity digest generation = .ok next) :
    next.generation = generation ∧ identity.generation < generation ∧
      next.configurationDigest = identity.configurationDigest := by
  unfold Documents.restamped at h
  split at h
  · cases h
  · rename_i current hread
    split at h
    · cases h
    · rename_i hsame
      rw [not_or, not_not, not_not] at hsame
      split at h
      · cases h
      · split at h
        · cases h
        · rename_i hnewer
          split at h
          · cases h
          · simp only [Except.ok.injEq] at h
            rw [← h, ← hsame.2]
            exact ⟨rfl, Nat.lt_of_not_le hnewer, rfl⟩

/-- What `start_deploy`'s update does. -/
theorem run_nameDeploy {docs : Documents} {s changed : AgentState} {id : String}
    {record : DeploymentRecord} {taken : Taken}
    (h : Write.run docs s (.nameDeploy id record) = .ok (taken, changed)) :
    ∃ tx identity, s.candidate = some record ∧ s.inFlightTransaction = some tx ∧
      s.nextGeneration.getD 1 ≤ identity.generation ∧ taken = .identity identity ∧ changed = { s with
        nextGeneration := some (identity.generation + 1)
        candidate := some (record.naming identity)
        inFlightTransaction := some (tx.naming identity) } := by
  simp only [Write.run, nameDeploy] at h
  split at h
  · cases h
  · rename_i hc
    rw [not_not] at hc
    split at h
    · cases h
    · rename_i generation next hgen
      split at h
      · cases h
      · split at h
        · cases h
        · rename_i tx htx
          split at h
          · cases h
          · simp only [Except.ok.injEq, Prod.mk.injEq] at h
            rw [allocateGeneration_eq hgen] at htx h
            have hfly := Option.eq_some_of_filter_eq_some htx
            exact ⟨tx, _, hc, hfly, le_of_allocateGeneration hgen, h.1.symm, h.2.symm⟩

/-- What `start_again`'s update does for a rollback. -/
theorem run_nameRollback {docs : Documents} {s changed : AgentState} {id : String}
    {record : DeploymentRecord} {taken : Taken}
    (h : Write.run docs s (.nameRollback id record) = .ok (taken, changed)) :
    ∃ tx recorded identity, record.descriptorIdentity = .ok (some recorded) ∧
      s.previousActive = some record ∧ s.inFlightTransaction = some tx ∧
      recorded.generation < identity.generation ∧
      identity.configurationDigest = recorded.configurationDigest ∧
      s.nextGeneration.getD 1 ≤ identity.generation ∧ taken = .identity identity ∧ changed = { s with
        nextGeneration := some (identity.generation + 1)
        inFlightTransaction := some (tx.naming identity) } := by
  simp only [Write.run, nameRollback] at h
  split at h
  · rename_i recorded hid
    split at h
    · cases h
    · rename_i hp
      rw [not_not] at hp
      split at h
      · cases h
      · rename_i generation next hgen
        split at h
        · cases h
        · rename_i identity hre
          split at h
          · cases h
          · rename_i tx htx
            split at h
            · cases h
            · simp only [Except.ok.injEq, Prod.mk.injEq] at h
              rw [allocateGeneration_eq hgen] at htx h
              obtain ⟨hg, hlt, hcfg⟩ := Documents.restamped_spec hre
              have hfly := Option.eq_some_of_filter_eq_some htx
              have hle := le_of_allocateGeneration hgen
              rw [← hg] at hle hlt h
              exact ⟨tx, recorded, identity, hid, hp, hfly, hlt, hcfg, hle, h.1.symm, h.2.symm⟩
  · cases h

/-- What `promote_candidate` does. -/
theorem run_promoteCandidate {docs : Documents} {s changed : AgentState} {now : ℕ} {taken : Taken}
    (h : Write.run docs s (.promoteCandidate now) = .ok (taken, changed)) :
    ∃ candidate, s.candidate = some candidate ∧ changed = { s with
      candidate := none
      inFlightTransaction := s.inFlightTransaction.map (recordCommit now)
      previousActive := s.active
      active := some { candidate with promotedMonotonicNs := some now } } := by
  simp only [Write.run] at h
  split at h
  · cases h
  · rename_i candidate hc
    split at h
    · cases h
    · simp only [Except.ok.injEq, Prod.mk.injEq] at h
      exact ⟨candidate, hc, h.2.symm⟩

/-- What `swap_active_with_previous` does. -/
theorem run_swapActiveWithPrevious {docs : Documents} {s changed : AgentState} {now : ℕ}
    {taken : Taken}
    (h : Write.run docs s (.swapActiveWithPrevious now) = .ok (taken, changed)) :
    ∃ previous started, s.previousActive = some previous ∧
      takeRollbackIdentity previous s.inFlightTransaction = .ok started ∧ changed = { s with
        inFlightTransaction := s.inFlightTransaction.map (recordCommit now)
        previousActive := s.active
        active := some { started with promotedMonotonicNs := some now } } := by
  simp only [Write.run] at h
  split at h
  · cases h
  · rename_i previous hp
    split at h
    · cases h
    · rename_i started hs
      simp only [Except.ok.injEq, Prod.mk.injEq] at h
      exact ⟨previous, started, hp, hs, h.2.symm⟩

/-- The identity a rollback takes moves neither the deployment, the bundle
nor its path. -/
theorem takeRollbackIdentity_same {previous started : DeploymentRecord}
    {tx : Option TransactionRecord} (h : takeRollbackIdentity previous tx = .ok started) :
    started.deploymentId = previous.deploymentId ∧ started.bundleDigest = previous.bundleDigest ∧
      started.stagedPath = previous.stagedPath := by
  unfold takeRollbackIdentity at h
  split at h
  · simp only [Except.ok.injEq] at h
    rw [h]
    exact ⟨rfl, rfl, rfl⟩
  · split at h
    · simp only [Except.ok.injEq] at h
      rw [← h]
      exact ⟨rfl, rfl, rfl⟩
    · cases h
  · cases h

/-- What the records of a valid state name was handed out. -/
theorem allocated_of_valid {s : AgentState} (hs : s.valid = true)
    {x : Except DescriptorIdentityError (Option DescriptorIdentity)}
    (hx : x ∈ s.descriptorIdentities) : s.identityAllocated x = true := by
  unfold AgentState.valid at hs
  simp only [Bool.and_eq_true] at hs
  exact List.all_eq_true.1 hs.1.2 x hx

/-- Three fields that pass the state's check read back as an identity. -/
theorem fromFields_of_allocated {s : AgentState} {generation : ℕ} {descriptor configuration : String}
    (h : s.identityAllocated (DescriptorIdentity.fromFields (some generation) (some descriptor)
      (some configuration)) = true) :
    DescriptorIdentity.fromFields (some generation) (some descriptor) (some configuration) =
      .ok (some ⟨generation, descriptor, configuration⟩) := by
  unfold DescriptorIdentity.fromFields at h ⊢
  dsimp only at h ⊢
  split at h
  · cases h
  · rename_i h1
    rw [if_neg h1]
    split at h
    · cases h
    · rename_i h2
      rw [if_neg h2]
      split at h
      · cases h
      · rename_i h3
        rw [if_neg h3]

/-- An identity a valid state names reads back as it was written. -/
theorem descriptorIdentity_naming {tx : TransactionRecord} {identity : DescriptorIdentity}
    {s : AgentState} (hs : s.valid = true)
    (htx : s.inFlightTransaction = some (tx.naming identity)) :
    (tx.naming identity).descriptorIdentity = .ok (some identity) := by
  have hmem : (tx.naming identity).descriptorIdentity ∈ s.descriptorIdentities := by
    unfold AgentState.descriptorIdentities
    rw [htx]
    simp
  exact fromFields_of_allocated (allocated_of_valid hs hmem)

/-! ## What each stage relies on -/

/-- The record and the reference are of one staged deployment. -/
def Refers (record : DeploymentRecord) (reference : CandidateRef) : Prop :=
  record.deploymentId = reference.deploymentId ∧ record.bundleDigest = reference.bundleDigest ∧
    record.stagedPath = reference.stagedPath

theorem refers_referenceOf (record : DeploymentRecord) (artifact : Option String) :
    Refers record (referenceOf record artifact) := ⟨rfl, rfl, rfl⟩

theorem Refers.trans_same {record started : DeploymentRecord} {reference : CandidateRef}
    (h : Refers record reference)
    (hs : started.deploymentId = record.deploymentId ∧ started.bundleDigest = record.bundleDigest ∧
      started.stagedPath = record.stagedPath) : Refers started reference :=
  ⟨hs.1.trans h.1, hs.2.1.trans h.2.1, hs.2.2.trans h.2.2⟩

/-- A phase before the commit. -/
def DeployState.early : DeployState → Bool
  | .promoted | .active | .failed | .rolledBack => false
  | _ => true

theorem DeployState.not_terminal_of_early {phase : DeployState} (h : phase.early = true) :
    phase.isTerminal = false := by
  cases phase <;> simp_all [DeployState.early, DeployState.isTerminal]

namespace Request

/-- `tx` is this request's transaction. -/
def Drives (r : Request) (tx : TransactionRecord) : Prop :=
  tx.transactionId = r.transactionId ∧ tx.kind = r.kind ∧ tx.deploymentId = r.deploymentId

/-- A rollback works on the record it read. -/
def Targets (r : Request) (record : DeploymentRecord) : Prop :=
  r.record = some record ∧ record.deploymentId = r.deploymentId

/-- Before a descriptor is named: the transaction names none, and the
record a rollback read is still the previous active one. -/
def Waits (r : Request) (s : AgentState) (tx : TransactionRecord) : Prop :=
  tx.descriptorIdentity = .ok none ∧
    (r.kind = .rollback → ∃ record, r.Targets record ∧ s.previousActive = some record ∧
      tx.bundleDigest = some record.bundleDigest)

/-- A deploy's record stands in the candidate slot. -/
def Recorded (r : Request) (s : AgentState) : Prop :=
  r.kind = .deploy → ∃ record, r.Targets record ∧ s.candidate = some record

/-- A rollback that may commit: its record stands in the slot, and its
transaction names for it what the swap takes. -/
structure ReadyToSwap (s : AgentState) (tx : TransactionRecord) (record : DeploymentRecord)
    (reference : CandidateRef) : Prop where
  previous : s.previousActive = some record
  digest : tx.bundleDigest = some record.bundleDigest
  staged : (splitDigest record.bundleDigest).isSome = true
  taken : ∃ started, takeRollbackIdentity record (some tx) = .ok started
  refers : Refers record reference

/-- What the commit of a request finds. -/
def Ready (r : Request) (s : AgentState) (tx : TransactionRecord) : Prop :=
  ∃ reference, r.reference = some reference ∧
    match r.kind with
    | .deploy => ∃ candidate, s.candidate = some candidate ∧ Refers candidate reference
    | .rollback => ∃ record, r.Targets record ∧ ReadyToSwap s tx record reference

/-- What the commit of a request leaves. -/
def Committed (r : Request) (s : AgentState) : Prop :=
  ∃ reference record, r.reference = some reference ∧ s.active = some record ∧
    Refers record reference

/-- The request's transaction is in flight, before its commit. -/
def InFlight (r : Request) (s : AgentState) (P : TransactionRecord → Prop) : Prop :=
  ∃ tx, s.inFlightTransaction = some tx ∧ r.Drives tx ∧ tx.phase.early = true ∧ P tx

/-- **What a request relies on where it stands.** -/
def Expects (r : Request) (s : AgentState) : Prop :=
  match r.stage with
  | .entering | .reading | .leaving _ | .finished _ => True
  | .rechecking | .beginning => r.kind = .rollback → ∃ record, r.Targets record
  | .recordVerified => r.InFlight s (r.Waits s)
  | .verifying | .recordDigest | .staging => r.kind = .deploy ∧ r.InFlight s (r.Waits s)
  | .recordCandidate =>
    r.kind = .deploy ∧ r.InFlight s (r.Waits s) ∧ ∃ record, r.Targets record
  | .recordStaged | .checkingCapacity | .recordCapacity | .restaging =>
    r.InFlight s (r.Waits s) ∧ r.Recorded s
  | .holding | .naming =>
    r.InFlight s (r.Waits s) ∧ r.Recorded s ∧
      ∀ record, r.record = some record → r.kind = .rollback →
        (splitDigest record.bundleDigest).isSome = true
  | .releasing _ | .unholding (some _) | .failing _ | .clearing _ => r.InFlight s fun _ => True
  | .preparing | .unholding none | .recordPrepared | .warming | .recordWarmed | .fencing
  | .committing => r.InFlight s (r.Ready s)
  | .activating | .reviewing | .unloading _ | .ending =>
    ∃ tx, s.inFlightTransaction = some tx ∧ r.Drives tx ∧ tx.phase = .promoted ∧ r.Committed s

/-- The stages from the transaction's begin to the write that ends it. -/
def owns (r : Request) : Bool :=
  match r.stage with
  | .entering | .reading | .rechecking | .beginning | .leaving _ | .finished _ => false
  | _ => true

/-! ## The parts are kept -/

variable {r : Request} {s : AgentState} {tx : TransactionRecord}

theorem kind_cases (r : Request) : r.kind = .deploy ∨ r.kind = .rollback := by
  cases r.kind
  · exact .inl rfl
  · exact .inr rfl

theorem InFlight.mono {P Q : TransactionRecord → Prop} (h : r.InFlight s P)
    (hPQ : ∀ tx, P tx → Q tx) : r.InFlight s Q := by
  obtain ⟨tx, htx, hd, he, hp⟩ := h
  exact ⟨tx, htx, hd, he, hPQ tx hp⟩

/-- A later phase of a transaction names what it named. -/
theorem takeRollbackIdentity_phase (record : DeploymentRecord) (tx : TransactionRecord)
    (phase : DeployState) (now : Option ℕ) :
    takeRollbackIdentity record
        (some { tx with phase := phase, lastTransitionMonotonicNs := now }) =
      takeRollbackIdentity record (some tx) := by
  rw [takeRollbackIdentity, takeRollbackIdentity, namedBy_some, namedBy_some]
  rfl

/-- **A recorded phase keeps what the request relies on.** -/
theorem InFlight.recordPhase {docs : Documents} {taken : Taken} {changed : AgentState}
    {phase : DeployState} {now : ℕ} {P : AgentState → TransactionRecord → Prop}
    (h : r.InFlight s (P s)) (hphase : phase.early = true)
    (hP : ∀ tx, P s tx → P
      (stamp { s with inFlightTransaction := some { tx with
        phase := phase, lastTransitionMonotonicNs := some now } })
      { tx with phase := phase, lastTransitionMonotonicNs := some now })
    (hrun : Write.run docs s (.recordPhase r.transactionId phase now) = .ok (taken, changed)) :
    r.InFlight (stamp changed) (P (stamp changed)) := by
  obtain ⟨tx, htx, hd, he, hp⟩ := h
  obtain ⟨tx', htx', -, rfl⟩ := run_recordPhase hrun
  have heq : tx = tx' := Option.some.inj (htx.symm.trans htx')
  subst heq
  exact ⟨_, rfl, hd, hphase, hP tx hp⟩

theorem Waits.recordPhase {phase : DeployState} {now : Option ℕ} (h : r.Waits s tx) :
    r.Waits (stamp { s with inFlightTransaction := some { tx with
        phase := phase, lastTransitionMonotonicNs := now } })
      { tx with phase := phase, lastTransitionMonotonicNs := now } :=
  h

theorem Ready.recordPhase {phase : DeployState} {now : Option ℕ} (h : r.Ready s tx) :
    r.Ready (stamp { s with inFlightTransaction := some { tx with
        phase := phase, lastTransitionMonotonicNs := now } })
      { tx with phase := phase, lastTransitionMonotonicNs := now } := by
  obtain ⟨reference, href, hk⟩ := h
  refine ⟨reference, href, ?_⟩
  cases hkind : r.kind with
  | deploy =>
    rw [hkind] at hk
    exact hk
  | rollback =>
    rw [hkind] at hk
    obtain ⟨record, ht, hr⟩ := hk
    obtain ⟨started, hs⟩ := hr.taken
    exact ⟨record, ht, hr.previous, hr.digest, hr.staged,
      ⟨started, by rw [takeRollbackIdentity_phase, hs]⟩, hr.refers⟩

/-! ## A step keeps what the request relies on -/

theorem expects_finished {e : Option AgentError} : (r.at (.finished e)).Expects s := trivial

theorem expects_leave {e : Option AgentError} : (r.leave e).Expects s := by
  unfold leave
  split
  · trivial
  · trivial

theorem InFlight.failing {P : TransactionRecord → Prop} {e : AgentError} (h : r.InFlight s P) :
    (r.at (.failing e)).Expects s :=
  h.mono fun _ _ => trivial

/-- A stage that was answered with nothing it waits for stays. -/
theorem Expects.stay {stage : Stage} (hst : r.stage = stage) (h : r.Expects s) :
    ({ r with stage := stage } : Request).Expects s := by
  subst hst
  exact h

/-- A bundle that compares equal to a record's names a digest. -/
theorem splitDigest_isSome_of_equal {a b : String} (h : bundleDigestsEqual a b = true) :
    (splitDigest b).isSome = true := by
  unfold bundleDigestsEqual at h
  split at h
  · rename_i hb
    rw [hb]
    rfl
  · cases h

/-- A rollback to a record that names no descriptor has nothing to take. -/
theorem takeRollbackIdentity_unnamed {record : DeploymentRecord} {tx : TransactionRecord}
    (hr : record.descriptorIdentity = .ok none) (htx : tx.descriptorIdentity = .ok none) :
    takeRollbackIdentity record (some tx) = .ok record := by
  have hnamed : namedBy .rollback record.deploymentId (some tx) = .ok none := by
    rw [namedBy_some, htx, ite_self]
  rw [takeRollbackIdentity, hr, hnamed]

/-- **A reference as it is recorded is ready to commit.** -/
theorem Ready.of_undescribed {record : DeploymentRecord} {artifact : Option String}
    (hrec : r.record = some record) (hd : r.described = .ok false) (hw : r.Waits s tx)
    (hc : r.Recorded s)
    (hdigest : r.kind = .rollback → (splitDigest record.bundleDigest).isSome = true) :
    (r.referred (referenceOf record artifact)).Ready s tx := by
  refine ⟨referenceOf record artifact, rfl, ?_⟩
  change match r.kind with
    | .deploy => _
    | .rollback => _
  cases hkind : r.kind with
  | deploy =>
    obtain ⟨record', ht, hslot⟩ := hc hkind
    have heq : record' = record := Option.some.inj (ht.1.symm.trans hrec)
    exact ⟨record, heq ▸ hslot, refers_referenceOf record artifact⟩
  | rollback =>
    obtain ⟨record', ht, hslot, hdig⟩ := hw.2 hkind
    have heq : record' = record := Option.some.inj (ht.1.symm.trans hrec)
    subst heq
    have hnone : record'.descriptorIdentity = .ok none := by
      unfold described at hd
      rw [hkind, hrec] at hd
      dsimp only at hd
      split at hd
      · rename_i identity hid
        simp only [Except.ok.injEq, Option.isSome_eq_false_iff, Option.isNone_iff_eq_none] at hd
        rw [hid, hd]
      · cases hd
    exact ⟨record', ht, hslot, hdig, hdigest hkind,
      ⟨record', takeRollbackIdentity_unnamed hnone hw.1⟩,
      refers_referenceOf record' artifact⟩

/-- Once its transaction waits and its candidate is recorded, a request
has the record it works on. -/
theorem exists_record (hw : r.Waits s tx) (hc : r.Recorded s) : ∃ record, r.record = some record := by
  cases hkind : r.kind with
  | deploy =>
    obtain ⟨record, ht, -⟩ := hc hkind
    exact ⟨record, ht.1⟩
  | rollback =>
    obtain ⟨record, ht, -⟩ := hw.2 hkind
    exact ⟨record, ht.1⟩

/-- Where a request starts its record: a deploy without a descriptor is
prepared at once, another has its staged copy compared first. -/
theorem expects_start (h : r.InFlight s (r.Waits s)) (hc : r.Recorded s) : r.start.Expects s := by
  unfold Request.start
  split
  · rename_i hnone
    obtain ⟨tx, -, -, -, hw⟩ := h
    obtain ⟨record, hrec⟩ := exists_record hw hc
    rw [hnone] at hrec
    cases hrec
  · exact h.failing
  · rename_i record described hrec hd
    split
    · rename_i hdep
      rw [Bool.and_eq_true, decide_eq_true_iff, Bool.not_eq_true'] at hdep
      obtain ⟨tx, htx, hdr, he, hw⟩ := h
      refine ⟨tx, htx, hdr, he, ?_⟩
      refine Ready.of_undescribed hrec (by rw [hd, hdep.2]) hw hc fun hkind => ?_
      rw [hdep.1] at hkind
      cases hkind
    · exact ⟨h, hc⟩

/-- **An answer of the worker control, the disk or a reading of the state
keeps what the request relies on.** -/
theorem Expects.asked {now : ℕ} (h : r.Expects s) (hop : ∀ write, r.op now ≠ .write write)
    (reply : Reply) : (r.resume reply).Expects s := by
  unfold resume
  have h' := h
  cases hst : r.stage <;> simp only [op, hst] at hop <;> simp only [Expects, hst] at h' <;> dsimp only
  case entering =>
    split
    · trivial
    · split
      · intro hk
        rename_i hkind
        rw [show (r.at .beginning).kind = r.kind from rfl, hkind] at hk
        cases hk
      · trivial
    · exact h
  case reading =>
    split
    · split
      · trivial
      · rename_i previous hp
        exact fun _ => ⟨previous, rfl, rfl⟩
    · trivial
    · exact h
  case rechecking =>
    split
    · exact h'
    · trivial
    · exact h
  case beginning => exact absurd rfl (hop _)
  case verifying =>
    split
    · exact h'.2
    · exact h'.2.failing
    · exact h
  case recordVerified => exact absurd rfl (hop _)
  case recordDigest =>
    unfold advanced
    split
    · exact h'
    · exact expects_leave
    · exact h
  case staging =>
    obtain ⟨hkind, hfly⟩ := h'
    split
    · obtain ⟨tx, htx, hdr, he, hw⟩ := hfly
      refine ⟨hkind, ⟨tx, htx, hdr, he, hw.1, fun hk => ?_⟩, _, rfl, rfl⟩
      rw [show Request.kind _ = r.kind from rfl, hkind] at hk
      cases hk
    · exact hfly.failing
    · exact h
  case recordCandidate =>
    obtain ⟨-, -, record, ht, -⟩ := h'
    rw [onRecord, ht] at hop
    exact absurd rfl (hop _)
  case recordStaged => exact absurd rfl (hop _)
  case checkingCapacity =>
    split
    · exact h'
    · exact h'.1.failing
    · exact h
  case recordCapacity => exact absurd rfl (hop _)
  case restaging =>
    obtain ⟨hfly, hc⟩ := h'
    split
    · rename_i digest record described hrec hd
      split
      · rename_i heq
        unfold restaged
        split
        · refine ⟨hfly, hc, fun record' hrec' _ => ?_⟩
          change r.record = some record' at hrec'
          rw [hrec, Option.some.injEq] at hrec'
          exact hrec' ▸ splitDigest_isSome_of_equal heq
        · rename_i hnot
          rw [Bool.not_eq_true] at hnot
          obtain ⟨tx, htx, hdr, he, hw⟩ := hfly
          exact ⟨tx, htx, hdr, he, Ready.of_undescribed hrec (by rw [hd, hnot]) hw hc
            fun _ => splitDigest_isSome_of_equal heq⟩
      · exact hfly.failing
    · exact hfly.failing
    · exact h
  case holding =>
    split
    · exact h'
    · exact h
  case naming =>
    obtain ⟨⟨tx, htx, hdr, he, hw⟩, hc, -⟩ := h'
    obtain ⟨record, hrec⟩ := exists_record hw hc
    rw [onRecord, hrec] at hop
    dsimp only at hop
    split at hop
    · exact absurd rfl (hop _)
    · exact absurd rfl (hop _)
  case releasing e =>
    split
    · exact h'
    · exact h
  case preparing =>
    split
    · split
      · exact h'
      · exact h'
    · split
      · exact h'.mono fun _ _ => trivial
      · exact h'.failing
    · exact h
  case unholding failure =>
    split
    · split
      · exact h'
      · exact h'
    · exact h
  case recordPrepared => exact absurd rfl (hop _)
  case warming =>
    split
    · exact h'
    · exact h'.failing
    · exact h'.failing
    · exact h
  case recordWarmed => exact absurd rfl (hop _)
  case fencing =>
    split
    · exact h'
    · exact h'.failing
    · exact h
  case committing =>
    split at hop
    · exact absurd rfl (hop _)
    · exact absurd rfl (hop _)
  case activating =>
    split
    · split
      · exact h'
      · exact h'
    · exact expects_leave
    · exact h
  case reviewing =>
    split
    · split
      · exact h'
      · exact h'
    · exact expects_leave
    · exact h
  case unloading id =>
    split
    · exact h'
    · exact h
  case ending => exact absurd rfl (hop _)
  case failing e =>
    split
    · exact expects_leave
    · exact h'
    · exact h
  case clearing e =>
    split at hop
    · exact absurd rfl (hop _)
    · exact absurd rfl (hop _)
  case leaving failure =>
    split
    · trivial
    · exact h
  case finished failure => exact h

/-- **The named rollback is ready to commit**: its transaction names a
later generation of the configuration the record names. -/
theorem takeRollbackIdentity_named {record : DeploymentRecord} {tx : TransactionRecord}
    {recorded identity : DescriptorIdentity}
    (hrec : record.descriptorIdentity = .ok (some recorded))
    (htx : tx.descriptorIdentity = .ok (some identity)) (hkind : tx.kind = .rollback)
    (hid : tx.deploymentId = record.deploymentId)
    (hgen : recorded.generation < identity.generation)
    (hcfg : identity.configurationDigest = recorded.configurationDigest) :
    takeRollbackIdentity record (some tx) = .ok { record with
      generation := some identity.generation
      descriptorDigest := some identity.descriptorDigest } := by
  have hnamed : namedBy .rollback record.deploymentId (some tx) = .ok (some identity) := by
    rw [namedBy_some, if_pos ⟨hkind, hid⟩, htx]
  rw [takeRollbackIdentity, hrec, hnamed]
  exact if_pos ⟨hgen, hcfg⟩

/-- The naming update makes a request ready to commit. -/
theorem Ready.of_naming {docs : Documents} {write : Write} {taken : Taken} {changed : AgentState}
    {now : ℕ} {identity : DescriptorIdentity} {record : DeploymentRecord}
    (h : r.InFlight s (r.Waits s))
    (hdigest : r.kind = .rollback → (splitDigest record.bundleDigest).isSome = true)
    (hst : r.stage = .naming) (hrec : r.record = some record) (hop : r.op now = .write write)
    (hrun : write.run docs s = .ok (taken, changed)) (hv : (stamp changed).valid = true)
    (htaken : taken = .identity identity) :
    (r.referred ((referenceOf record r.artifact).naming identity)).Expects (stamp changed) := by
  subst htaken
  obtain ⟨tx, htx, hdr, he, hw⟩ := h
  simp only [op, hst, onRecord, hrec] at hop
  cases hkind : r.kind with
  | deploy =>
    rw [hkind] at hop
    simp only [Op.write.injEq] at hop
    subst hop
    obtain ⟨tx', identity', -, htx', -, htk, rfl⟩ := run_nameDeploy hrun
    have heq : tx = tx' := Option.some.inj (htx.symm.trans htx')
    cases htk
    subst heq
    refine ⟨tx.naming identity, rfl, hdr, he, _, rfl, ?_⟩
    rw [show (r.referred ((referenceOf record r.artifact).naming identity)).kind = .deploy from hkind]
    exact ⟨record.naming identity, rfl, rfl, rfl, rfl⟩
  | rollback =>
    rw [hkind] at hop
    simp only [Op.write.injEq] at hop
    subst hop
    obtain ⟨tx', recorded, identity', hid, hp, htx', hgen, hcfg, -, htk, rfl⟩ :=
      run_nameRollback hrun
    have heq : tx = tx' := Option.some.inj (htx.symm.trans htx')
    cases htk
    subst heq
    obtain ⟨record', ht, -, hdig⟩ := hw.2 hkind
    have hsame : record' = record := Option.some.inj (ht.1.symm.trans hrec)
    subst hsame
    refine ⟨tx.naming identity, rfl, hdr, he, _, rfl, ?_⟩
    rw [show (r.referred ((referenceOf record' r.artifact).naming identity)).kind = .rollback
      from hkind]
    have htake := takeRollbackIdentity_named hid (descriptorIdentity_naming hv rfl)
      (hdr.2.1.trans hkind) (hdr.2.2.trans ht.2.symm) hgen hcfg
    exact ⟨record', ht, hp, hdig, hdigest hkind, ⟨_, htake⟩, rfl, rfl, rfl⟩

/-- What the commit leaves is what the request handed to the worker
control. -/
theorem Committed.of_commit {docs : Documents} {write : Write} {taken : Taken}
    {changed : AgentState} {now : ℕ} (h : r.InFlight s (r.Ready s)) (hst : r.stage = .committing)
    (hop : r.op now = .write write) (hrun : write.run docs s = .ok (taken, changed)) :
    ({ r with promoted := true, stage := .activating } : Request).Expects (stamp changed) := by
  obtain ⟨tx, htx, hdr, -, reference, href, hk⟩ := h
  simp only [op, hst] at hop
  obtain hkind | hkind := r.kind_cases
  · -- a deploy
    rw [hkind] at hop hk
    simp only [Op.write.injEq] at hop
    subst hop
    obtain ⟨candidate, hc, rfl⟩ := run_promoteCandidate hrun
    obtain ⟨candidate', hc', hrefers⟩ := hk
    have heq : candidate' = candidate := Option.some.inj (hc'.symm.trans hc)
    subst heq
    exact ⟨recordCommit now tx, by simp [htx], hdr, rfl, reference, _, href, rfl, hrefers⟩
  · -- a rollback
    rw [hkind] at hop hk
    simp only [Op.write.injEq] at hop
    subst hop
    obtain ⟨previous, started, hp, hs, rfl⟩ := run_swapActiveWithPrevious hrun
    obtain ⟨record, -, hr⟩ := hk
    have heq : record = previous := Option.some.inj (hr.previous.symm.trans hp)
    subst heq
    have hrefers := hr.refers.trans_same (takeRollbackIdentity_same hs)
    exact ⟨recordCommit now tx, by simp [htx], hdr, rfl, reference, _, href, rfl, hrefers⟩

/-- A write that fails ends the request or its transaction, or leaves the
hold. -/
theorem Expects.refused {write : Write} {now : ℕ} (h : r.Expects s)
    (hop : r.op now = .write write) (e : AgentError) : (r.resume (.failed e)).Expects s := by
  unfold resume
  have h' := h
  cases hst : r.stage <;> simp only [op, hst, reduceCtorEq] at hop <;>
    simp only [Expects, hst] at h' <;> dsimp only
  case beginning => split <;> exact expects_leave
  case recordVerified => split <;> exact expects_leave
  case recordDigest => exact expects_leave
  case recordCandidate => exact expects_leave
  case recordStaged => split <;> exact expects_leave
  case recordCapacity => exact expects_leave
  case naming => exact h'.1.mono fun _ _ => trivial
  case preparing => exact absurd hop (by unfold onReference; split <;> simp)
  case recordPrepared => exact expects_leave
  case warming => exact absurd hop (by unfold onReference; split <;> simp)
  case recordWarmed => exact expects_leave
  case fencing => exact absurd hop (by unfold onReference; split <;> simp)
  case committing => exact h'.failing
  case activating => exact expects_leave
  case ending => exact expects_leave
  case clearing e' => exact expects_leave
  case leaving failure => exact absurd hop (by unfold onReference; split <;> simp)

/-- **A write that lands keeps what the request relies on.** A request
that begins finds no transaction that has not ended, and a rollback must
find the record it read. -/
theorem Expects.landed {docs : Documents} {write : Write} {taken : Taken} {changed : AgentState}
    {now : ℕ} (h : r.Expects s) (hop : r.op now = .write write)
    (hfree : r.stage = .beginning →
      ∀ tx, s.inFlightTransaction = some tx → tx.phase.isTerminal = false)
    (hbegin : r.stage = .beginning → r.kind = .rollback → s.previousActive = r.record)
    (hrun : write.run docs s = .ok (taken, changed)) (hv : (stamp changed).valid = true) :
    (r.resume (.taken taken)).Expects (stamp changed) := by
  unfold resume
  have h' := h
  have hop' := hop
  cases hst : r.stage <;> simp only [op, hst, reduceCtorEq] at hop <;>
    simp only [Expects, hst] at h' <;> dsimp only
  case beginning =>
    simp only [Op.write.injEq] at hop
    subst hop
    obtain ⟨-, rfl⟩ := run_beginTransaction (hfree hst) hrun
    have hunnamed : (r.transactionRecord now).descriptorIdentity = .ok none := rfl
    split
    · rename_i hkind
      exact ⟨hkind, r.transactionRecord now, rfl, ⟨rfl, rfl, rfl⟩, rfl, hunnamed,
        fun hk => absurd (hkind.symm.trans hk) (by decide)⟩
    · rename_i hkind
      refine ⟨r.transactionRecord now, rfl, ⟨rfl, rfl, rfl⟩, rfl, hunnamed, fun _ => ?_⟩
      obtain ⟨record, ht⟩ := h' hkind
      refine ⟨record, ht, (hbegin hst hkind).trans ht.1, ?_⟩
      simp [transactionRecord, hkind, ht.1]
  case recordVerified =>
    simp only [Op.write.injEq] at hop
    subst hop
    have hfly := h'.recordPhase rfl (fun tx => Waits.recordPhase) hrun
    split
    · rename_i hkind
      exact ⟨hkind, hfly⟩
    · rename_i hkind
      exact ⟨hfly, fun hk => absurd (hkind.symm.trans hk) (by decide)⟩
  case recordDigest =>
    obtain ⟨hkind, tx, htx, hdr, he, hw⟩ := h'
    split at hop
    · rename_i verified hverified
      simp only [Op.write.injEq] at hop
      subst hop
      simp only [Write.run, Except.ok.injEq, Prod.mk.injEq] at hrun
      obtain ⟨-, rfl⟩ := hrun
      refine ⟨hkind, { tx with bundleDigest := some verified.manifestDigest }, by simp [htx], hdr, he,
        hw.1, fun hk => ?_⟩
      exact absurd (hkind.symm.trans hk) (by decide)
    · cases hop
  case recordCandidate =>
    obtain ⟨hkind, hfly, record, ht⟩ := h'
    simp only [onRecord, ht.1, Op.write.injEq] at hop
    subst hop
    simp only [Write.run, Except.ok.injEq, Prod.mk.injEq] at hrun
    obtain ⟨-, rfl⟩ := hrun
    exact ⟨hfly, fun _ => ⟨record, ht, rfl⟩⟩
  case recordStaged =>
    simp only [Op.write.injEq] at hop
    subst hop
    obtain ⟨hfly, hc⟩ := h'
    have hfly' := hfly.recordPhase rfl (fun tx => Waits.recordPhase) hrun
    have hc' : r.Recorded (stamp changed) := by
      obtain ⟨tx, -, -, rfl⟩ := run_recordPhase hrun
      exact hc
    split
    · exact ⟨hfly', hc'⟩
    · exact ⟨hfly', hc'⟩
  case recordCapacity =>
    simp only [Op.write.injEq] at hop
    subst hop
    obtain ⟨hfly, hc⟩ := h'
    have hfly' := hfly.recordPhase rfl (fun tx => Waits.recordPhase) hrun
    have hc' : r.Recorded (stamp changed) := by
      obtain ⟨tx, -, -, rfl⟩ := run_recordPhase hrun
      exact hc
    exact expects_start hfly' hc'
  case naming =>
    obtain ⟨hfly, hc, hdigest⟩ := h'
    obtain ⟨record, hrec⟩ : ∃ record, r.record = some record := by
      obtain ⟨tx, -, -, -, hw⟩ := hfly
      exact exists_record hw hc
    obtain ⟨identity, htaken⟩ : ∃ identity, taken = .identity identity := by
      simp only [onRecord, hrec] at hop
      split at hop
      · simp only [Op.write.injEq] at hop
        subst hop
        obtain ⟨-, identity, -, -, -, htk, -⟩ := run_nameDeploy hrun
        exact ⟨identity, htk⟩
      · simp only [Op.write.injEq] at hop
        subst hop
        obtain ⟨-, -, identity, -, -, -, -, -, -, htk, -⟩ := run_nameRollback hrun
        exact ⟨identity, htk⟩
    rw [htaken, hrec]
    exact Ready.of_naming hfly (hdigest record hrec) hst hrec hop' hrun hv htaken
  case preparing => exact absurd hop (by unfold onReference; split <;> simp)
  case recordPrepared =>
    simp only [Op.write.injEq] at hop
    subst hop
    exact h'.recordPhase rfl (fun tx => Ready.recordPhase) hrun
  case warming => exact absurd hop (by unfold onReference; split <;> simp)
  case recordWarmed =>
    simp only [Op.write.injEq] at hop
    subst hop
    exact h'.recordPhase rfl (fun tx => Ready.recordPhase) hrun
  case fencing => exact absurd hop (by unfold onReference; split <;> simp)
  case committing => exact Committed.of_commit h' hst hop' hrun
  case activating => exact absurd hop (by unfold onReference; split <;> simp)
  case ending => exact expects_finished
  case clearing e' => exact expects_leave
  case leaving failure => exact absurd hop (by unfold onReference; split <;> simp)

/-- **Every step of a request keeps what it relies on.** -/
theorem Expects.wrote {docs : Documents} {write : Write} {reply : Reply} {s' : AgentState} {now : ℕ}
    (h : r.Expects s) (hop : r.op now = .write write)
    (hfree : r.stage = .beginning →
      ∀ tx, s.inFlightTransaction = some tx → tx.phase.isTerminal = false)
    (hbegin : r.stage = .beginning → r.kind = .rollback → s.previousActive = r.record)
    (hw : Wrote docs write s reply s') : (r.resume reply).Expects s' := by
  cases hw with
  | refused e => exact h.refused hop e
  | landed hrun hv => exact h.landed hop hfree hbegin hrun hv

/-! ## Who owns the transaction in flight -/

/-- A request that owns the transaction finds it in flight. -/
theorem Expects.inFlight (h : r.Expects s) (ho : r.owns = true) :
    ∃ tx, s.inFlightTransaction = some tx ∧ r.Drives tx ∧ tx.phase.isTerminal = false := by
  have hearly : ∀ P : TransactionRecord → Prop, r.InFlight s P →
      ∃ tx, s.inFlightTransaction = some tx ∧ r.Drives tx ∧ tx.phase.isTerminal = false := by
    rintro P ⟨tx, htx, hdr, he, -⟩
    exact ⟨tx, htx, hdr, DeployState.not_terminal_of_early he⟩
  have hpromoted : (∃ tx, s.inFlightTransaction = some tx ∧ r.Drives tx ∧ tx.phase = .promoted ∧
      r.Committed s) →
      ∃ tx, s.inFlightTransaction = some tx ∧ r.Drives tx ∧ tx.phase.isTerminal = false := by
    rintro ⟨tx, htx, hdr, hp, -⟩
    exact ⟨tx, htx, hdr, by rw [hp]; rfl⟩
  cases hst : r.stage <;> simp only [owns, hst, Bool.false_eq_true] at ho <;>
    simp only [Expects, hst] at h
  case verifying | recordDigest | staging => exact hearly _ h.2
  case recordCandidate => exact hearly _ h.2.1
  case recordStaged | checkingCapacity | recordCapacity | restaging | holding | naming =>
    exact hearly _ h.1
  case unholding failure =>
    cases failure
    · exact hearly _ h
    · exact hearly _ h
  case activating | reviewing | unloading | ending => exact hpromoted h
  all_goals exact hearly _ h

/-- What a request that owns nothing relies on is its own. -/
theorem Expects.of_not_owns {s' : AgentState} (h : r.Expects s) (ho : r.owns = false) :
    r.Expects s' := by
  cases hst : r.stage <;> simp only [owns, hst, Bool.true_eq_false] at ho <;>
    simp only [Expects, hst] at h ⊢
  case rechecking | beginning => exact h

/-- A request returns without a transaction of its own. -/
theorem owns_leave {e : Option AgentError} : (r.leave e).owns = false := by
  unfold leave
  split
  · rfl
  · rfl

/-- Only `begin_transaction` is written by a request that owns nothing. -/
theorem stage_of_write {write : Write} {now : ℕ} (hop : r.op now = .write write)
    (ho : r.owns = false) : r.stage = .beginning := by
  cases hst : r.stage <;> simp only [owns, hst, Bool.true_eq_false] at ho <;>
    simp only [op, hst, reduceCtorEq] at hop
  case beginning => rfl
  case leaving failure =>
    unfold onReference at hop
    split at hop <;> cases hop

/-- An answer makes no request an owner. -/
theorem owns_of_asked {now : ℕ} {reply : Reply} (hop : ∀ write, r.op now ≠ .write write)
    (ho : (r.resume reply).owns = true) : r.owns = true := by
  by_contra hr
  rw [Bool.not_eq_true] at hr
  cases hst : r.stage <;> simp only [owns, hst, Bool.true_eq_false] at hr <;>
    simp only [op, hst] at hop <;> unfold resume at ho <;> rw [hst] at ho <;> dsimp only at ho
  case entering =>
    split at ho
    · cases ho
    · split at ho <;> cases ho
    · simp [owns, hst] at ho
  case reading =>
    split at ho
    · split at ho <;> cases ho
    · cases ho
    · simp [owns, hst] at ho
  case rechecking =>
    split at ho
    · cases ho
    · cases ho
    · simp [owns, hst] at ho
  case beginning => exact absurd rfl (hop _)
  case leaving failure =>
    split at ho
    · cases ho
    · simp [owns, hst] at ho
  case finished failure => simp [owns, hst] at ho

/-- No write of a request but its commit touches the active record. -/
theorem active_of_landed {docs : Documents} {write : Write} {taken : Taken} {changed : AgentState}
    {now : ℕ} (hop : r.op now = .write write) (hst : r.stage ≠ .committing)
    (hrun : write.run docs s = .ok (taken, changed)) : changed.active = s.active := by
  have hphase : ∀ id phase, Write.run docs s (.recordPhase id phase now) = .ok (taken, changed) →
      changed.active = s.active := by
    intro id phase h
    obtain ⟨tx, -, -, rfl⟩ := run_recordPhase h
    rfl
  cases hstage : r.stage <;> simp only [op, hstage, reduceCtorEq, Op.write.injEq] at hop
  case committing => exact absurd hstage hst
  case beginning =>
    subst hop
    simp only [Write.run] at hrun
    split at hrun
    · split at hrun
      · cases hrun
        rfl
      · cases hrun
    · cases hrun
      rfl
  case recordDigest =>
    split at hop
    · cases hop
      cases hrun
      rfl
    · cases hop
  case recordCandidate =>
    unfold onRecord at hop
    split at hop
    · cases hop
      cases hrun
      rfl
    · cases hop
  case naming =>
    unfold onRecord at hop
    split at hop
    · split at hop
      · cases hop
        obtain ⟨-, -, -, -, -, -, rfl⟩ := run_nameDeploy hrun
        rfl
      · cases hop
        obtain ⟨-, -, -, -, -, -, -, -, -, -, rfl⟩ := run_nameRollback hrun
        rfl
    · cases hop
  case ending =>
    subst hop
    cases hrun
    rfl
  case clearing e =>
    split at hop
    · cases hop
      simp only [Write.run] at hrun
      split at hrun
      · cases hrun
      · cases hrun
        rfl
    · cases hop
      cases hrun
      rfl
  case preparing | warming | fencing | activating | leaving =>
    unfold onReference at hop
    split at hop <;> cases hop
  all_goals
    subst hop
    exact hphase _ _ hrun

/-- A write after which the request owns nothing ended its transaction. -/
theorem inFlight_of_landed {docs : Documents} {write : Write} {taken : Taken}
    {changed : AgentState} {now : ℕ} (hop : r.op now = .write write)
    (hrun : write.run docs s = .ok (taken, changed))
    (ho : (r.resume (.taken taken)).owns = false) : changed.inFlightTransaction = none := by
  unfold resume at ho
  cases hstage : r.stage <;> simp only [op, hstage, reduceCtorEq, Op.write.injEq] at hop <;>
    rw [hstage] at ho <;> dsimp only at ho
  case beginning | recordVerified | recordStaged => split at ho <;> cases ho
  case recordCapacity =>
    unfold Request.start at ho
    split at ho
    · simp [owns, hstage] at ho
    · cases ho
    · split at ho <;> cases ho
  case naming =>
    split at ho
    · cases ho
    · cases ho
    · simp [owns, hstage] at ho
  case ending =>
    subst hop
    cases hrun
    rfl
  case clearing e =>
    split at hop
    · cases hop
      simp only [Write.run] at hrun
      split at hrun
      · cases hrun
      · cases hrun
        rfl
    · cases hop
      cases hrun
      rfl
  case preparing | warming | fencing | activating | leaving =>
    unfold onReference at hop
    split at hop <;> cases hop
  all_goals cases ho

/-- A request that arrives relies on nothing and owns nothing. -/
theorem expects_arrived (h : r.stage = .entering ∨ ∃ e, r.stage = .finished e) :
    r.Expects s ∧ r.owns = false := by
  obtain hst | ⟨e, hst⟩ := h
  · simp [Expects, owns, hst]
  · simp [Expects, owns, hst]

theorem stage_deploy (transactionId deploymentId bundlePath : String)
    (labels : List (String × String)) (correlationId : Option String) (streaming : Bool) :
    (Request.deploy transactionId deploymentId bundlePath labels correlationId streaming).stage =
        .entering ∨
      ∃ e, (Request.deploy transactionId deploymentId bundlePath labels correlationId
        streaming).stage = .finished e := by
  unfold Request.deploy
  by_cases hv : isValidDeploymentId deploymentId = true
  · exact .inl (if_pos hv)
  · exact .inr ⟨_, if_neg hv⟩

/-- Only a request at its activation calls `activate`, with its reference. -/
theorem stage_of_activate {now : ℕ} {reference : CandidateRef}
    (hop : r.op now = .activate reference) :
    r.stage = .activating ∧ r.reference = some reference := by
  cases hst : r.stage <;> simp only [op, hst, reduceCtorEq] at hop
  case activating =>
    unfold onReference at hop
    split at hop
    · rename_i href
      cases hop
      exact ⟨rfl, href⟩
    · cases hop
  case recordDigest => split at hop <;> cases hop
  case committing => split at hop <;> cases hop
  case clearing => split at hop <;> cases hop
  case recordCandidate =>
    unfold onRecord at hop
    split at hop <;> cases hop
  case naming =>
    unfold onRecord at hop
    split at hop
    · split at hop <;> cases hop
    · cases hop
  all_goals
    unfold onReference at hop
    split at hop <;> cases hop

end Request

end Agent

end Tensorplate
