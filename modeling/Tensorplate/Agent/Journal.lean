import Tensorplate.Agent.Model.Recovery
import Tensorplate.Agent.Requests

/-!
# What the journal says of the state

Whether an interrupted transaction committed is read from the records
alone. `Journaled` says what the durable state holds of the transaction
the journal has open: before its commit write landed the records are the
ones it began on, afterwards the ones it wrote, in both cases up to a
later generation that a restart named on the active record (`Later`).
Every write of a request, of a restore and of the agent's loop keeps it.
-/

namespace Tensorplate

namespace Agent

open StateStore

/-! ## Later generations of a record -/

/-- An identity a valid state names on its active record reads back. -/
theorem descriptorIdentity_active {record : DeploymentRecord} {s : AgentState}
    (hs : s.valid = true) (ha : s.active = some record) (identity : DescriptorIdentity)
    (hg : record.generation = some identity.generation)
    (hd : record.descriptorDigest = some identity.descriptorDigest)
    (hc : record.configurationDigest = some identity.configurationDigest) :
    record.descriptorIdentity = .ok (some identity) := by
  have hmem : record.descriptorIdentity ∈ s.descriptorIdentities := by
    unfold AgentState.descriptorIdentities
    rw [ha]
    simp
  have hok := allocated_of_valid hs hmem
  unfold DeploymentRecord.descriptorIdentity at hok ⊢
  rw [hg, hd, hc] at hok ⊢
  exact fromFields_of_allocated hok

/-- An identity a record names carries the record's configuration. -/
theorem configurationDigest_of_identity {record : DeploymentRecord} {identity : DescriptorIdentity}
    (h : record.descriptorIdentity = .ok (some identity)) :
    record.configurationDigest = some identity.configurationDigest := by
  unfold DeploymentRecord.descriptorIdentity DescriptorIdentity.fromFields at h
  split at h
  · cases h
  · rename_i hc
    split at h
    · cases h
    · split at h
      · cases h
      · split at h
        · cases h
        · cases h
          exact hc
  · cases h

/-- **The record at a later generation of the same configuration**, or as
it is. -/
def Later (r r' : DeploymentRecord) : Prop :=
  r' = r ∨ ∃ identity next, r.descriptorIdentity = .ok (some identity) ∧
    r'.descriptorIdentity = .ok (some next) ∧ identity.generation < next.generation ∧
    next.configurationDigest = identity.configurationDigest ∧ r' = r.naming next

theorem Later.refl (r : DeploymentRecord) : Later r r := .inl rfl

theorem Later.trans {a b c : DeploymentRecord} (hab : Later a b) (hbc : Later b c) : Later a c := by
  obtain rfl | ⟨ida, idb, ha, hb, hgen, hcfg, hnamed⟩ := hab
  · exact hbc
  · obtain rfl | ⟨idb', idc, hb', hc, hgen', hcfg', hnamed'⟩ := hbc
    · exact .inr ⟨ida, idb, ha, hb, hgen, hcfg, hnamed⟩
    · have heq : idb = idb' := by
        rw [hb] at hb'
        simpa using hb'
      subst heq
      refine .inr ⟨ida, idc, ha, hc, Nat.lt_trans hgen hgen', hcfg'.trans hcfg, ?_⟩
      rw [hnamed', hnamed]
      rfl

/-- A later generation is of the same staged deployment. -/
theorem Later.same {a b : DeploymentRecord} (h : Later a b) :
    b.deploymentId = a.deploymentId ∧ b.bundleDigest = a.bundleDigest ∧
      b.stagedPath = a.stagedPath := by
  obtain rfl | ⟨-, -, -, -, -, -, rfl⟩ := h
  · exact ⟨rfl, rfl, rfl⟩
  · exact ⟨rfl, rfl, rfl⟩

theorem later_refl (r : Option DeploymentRecord) : Option.Rel Later r r := by
  cases r with
  | none => exact .none
  | some r => exact .some (.refl r)

theorem later_trans {a b c : Option DeploymentRecord} (hab : Option.Rel Later a b)
    (hbc : Option.Rel Later b c) : Option.Rel Later a c := by
  cases hab with
  | none => exact hbc
  | some h =>
    cases hbc with
    | some h' => exact .some (h.trans h')

/-- **What a write beside the requests may do**: name a later generation
on the active record. -/
structure Moved (s s' : AgentState) : Prop where
  active : Option.Rel Later s.active s'.active
  previousActive : s'.previousActive = s.previousActive
  candidate : s'.candidate = s.candidate
  inFlight : s'.inFlightTransaction = s.inFlightTransaction

/-- What `restart_stamp`'s update does. -/
theorem run_restamp {docs : Documents} {s changed : AgentState} {recipe : CandidateRef}
    {generation : ℕ} {taken : Taken}
    (h : Write.run docs s (.restamp recipe generation) = .ok (taken, changed)) :
    ∃ active identity next, s.active = some active ∧
      active.descriptorIdentity = .ok (some identity) ∧ identity.generation < next.generation ∧
      next.configurationDigest = identity.configurationDigest ∧
      changed = { s with active := some (active.naming next) } := by
  simp only [Write.run, restamp] at h
  split at h
  · rename_i identity hid
    split at h
    · cases h
    · rename_i active hactive
      split at h
      · cases h
      · rename_i next hre
        split at h
        · cases h
        · simp only [Except.ok.injEq, Prod.mk.injEq] at h
          obtain ⟨hg, hlt, hcfg⟩ := Documents.restamped_spec hre
          rw [Option.filter_eq_some_iff, decide_eq_true_iff] at hactive
          exact ⟨active, identity, next, hactive.1, hactive.2.2, hg ▸ hlt, hcfg, h.2.symm⟩
  · cases h

/-- What `start_again`'s update does for a restore. -/
theorem run_nameRestore {docs : Documents} {s changed : AgentState} {record : DeploymentRecord}
    {taken : Taken} (h : Write.run docs s (.nameRestore record) = .ok (taken, changed)) :
    ∃ identity next counter, s.active = some record ∧
      record.descriptorIdentity = .ok (some identity) ∧ identity.generation < next.generation ∧
      next.configurationDigest = identity.configurationDigest ∧
      changed = { s with nextGeneration := counter, active := some (record.naming next) } := by
  simp only [Write.run, nameRestore] at h
  split at h
  · rename_i identity hid
    split at h
    · cases h
    · rename_i hslot
      rw [not_not] at hslot
      split at h
      · cases h
      · rename_i generation next hgen
        split at h
        · cases h
        · rename_i next' hre
          split at h
          · cases h
          · simp only [Except.ok.injEq, Prod.mk.injEq] at h
            rw [allocateGeneration_eq hgen] at h
            obtain ⟨hg, hlt, hcfg⟩ := Documents.restamped_spec hre
            exact ⟨identity, next', some (generation + 1), hslot, hid, hg ▸ hlt, hcfg, h.2.symm⟩
  · cases h

/-- A valid state whose active record was named again. -/
theorem Moved.of_named {s s' : AgentState} {active : DeploymentRecord}
    {identity next : DescriptorIdentity} (hv : s'.valid = true) (ha : s.active = some active)
    (hid : active.descriptorIdentity = .ok (some identity))
    (hgen : identity.generation < next.generation)
    (hcfg : next.configurationDigest = identity.configurationDigest)
    (ha' : s'.active = some (active.naming next))
    (hp : s'.previousActive = s.previousActive) (hc : s'.candidate = s.candidate)
    (htx : s'.inFlightTransaction = s.inFlightTransaction) : Moved s s' := by
  refine ⟨?_, hp, hc, htx⟩
  rw [ha, ha']
  have hnext := descriptorIdentity_active hv ha' next rfl rfl rfl
  exact .some (.inr ⟨identity, next, hid, hnext, hgen, hcfg, rfl⟩)

/-- **The writes beside the requests move the active record only.** -/
theorem moved_of_member {docs : Documents} {write : Write} {s changed : AgentState} {taken : Taken}
    (hm : write.ofMember = true ∨ ∃ record, write = .nameRestore record)
    (hrun : write.run docs s = .ok (taken, changed)) (hv : (stamp changed).valid = true) :
    Moved s (stamp changed) := by
  obtain hm | ⟨record, rfl⟩ := hm
  · cases write <;> simp only [Write.ofMember, Bool.false_eq_true] at hm
    case restamp recipe generation =>
      obtain ⟨active, identity, next, ha, hid, hgen, hcfg, rfl⟩ := run_restamp hrun
      exact .of_named hv ha hid hgen hcfg rfl rfl rfl rfl
    case allocate =>
      simp only [Write.run] at hrun
      split at hrun
      · cases hrun
      · rename_i generation next hgen
        cases hrun
        rw [allocateGeneration_eq hgen]
        exact ⟨later_refl _, rfl, rfl, rfl⟩
    case setLastError error =>
      cases hrun
      exact ⟨later_refl _, rfl, rfl, rfl⟩
  · obtain ⟨identity, next, counter, ha, hid, hgen, hcfg, rfl⟩ := run_nameRestore hrun
    exact .of_named hv ha hid hgen hcfg rfl rfl rfl rfl

/-! ## What the journal says of the state -/

/-- **What a transaction leaves of the records**: before its commit write
landed those it began on; afterwards, for a deploy, the candidate and the
old active, and for a rollback the previous record under the identity the
rollback named and the old active. -/
def Entry.Outcome (entry : Entry) (s : AgentState) : Prop :=
  match entry.landedOn with
  | none =>
    Option.Rel Later entry.before.active s.active ∧
      s.previousActive = entry.before.previousActive
  | some found =>
    Option.Rel Later entry.before.active found.active ∧
      found.previousActive = entry.before.previousActive ∧ s.previousActive = found.active ∧
      match entry.kind with
      | .deploy => ∃ candidate now, found.candidate = some candidate ∧
          Option.Rel Later (some { candidate with promotedMonotonicNs := some now }) s.active
      | .rollback => ∃ previous started now, found.previousActive = some previous ∧
          takeRollbackIdentity previous found.inFlightTransaction = .ok started ∧
          Option.Rel Later (some { started with promotedMonotonicNs := some now }) s.active

/-- The journal's transaction is in flight, at the phase its entry says. -/
def Entry.InFlight (entry : Entry) (s : AgentState) : Prop :=
  ∃ tx, s.inFlightTransaction = some tx ∧ tx.kind = entry.kind ∧
    if entry.landedOn.isSome then tx.phase = .promoted ∧ committed s tx = true
    else tx.phase.early = true

/-- **What the durable state holds of the journal.** -/
def Journaled : Journal → AgentState → Prop
  | .foreign, _ => True
  | .clean, s => s.inFlightTransaction = none ∧ s.candidate = none
  | .opened entry, s => entry.Outcome s ∧ entry.InFlight s

/-- A transaction at an early phase has not committed. -/
theorem committed_of_early {s : AgentState} {tx : TransactionRecord}
    (h : tx.phase.early = true) : committed s tx = false := by
  have hne : ∀ phase : DeployState, phase.early = false → (tx.phase == phase) = false := by
    intro phase hphase
    rw [beq_eq_false_iff_ne]
    rintro heq
    rw [heq, hphase] at h
    cases h
  unfold committed
  rw [hne .promoted rfl, hne .active rfl, hne .rolledBack rfl]
  split
  · rfl
  · rfl

/-- A promoted rollback whose active record carries what it named, or a
later generation, has committed. -/
theorem committed_of_named {s : AgentState} {tx : TransactionRecord} {active : DeploymentRecord}
    {named now : DescriptorIdentity} (hkind : tx.kind = .rollback) (hphase : tx.phase = .promoted)
    (htx : tx.descriptorIdentity = .ok (some named)) (ha : s.active = some active)
    (hid : active.deploymentId = tx.deploymentId)
    (hnow : active.descriptorIdentity = .ok (some now)) (hgen : named.generation ≤ now.generation)
    (hcfg : now.configurationDigest = named.configurationDigest) : committed s tx = true := by
  unfold committed
  rw [hkind, hphase, ha]
  dsimp only
  rw [if_neg (by decide), htx, hid, hnow]
  simp [hgen, hcfg]

/-- A promoted rollback that names no descriptor has committed once its
bundle is active. -/
theorem committed_of_unnamed {s : AgentState} {tx : TransactionRecord} {active : DeploymentRecord}
    (hkind : tx.kind = .rollback) (hphase : tx.phase = .promoted)
    (htx : tx.descriptorIdentity = .ok none) (ha : s.active = some active)
    (hid : active.deploymentId = tx.deploymentId)
    (hdigest : tx.bundleDigest = some active.bundleDigest)
    (hstaged : (splitDigest active.bundleDigest).isSome = true) : committed s tx = true := by
  obtain ⟨halves, hsplit⟩ := Option.isSome_iff_exists.1 hstaged
  have hsame : bundleDigestsEqual active.bundleDigest active.bundleDigest = true := by
    unfold bundleDigestsEqual
    rw [hsplit]
    simp
  unfold committed
  rw [hkind, hphase, ha]
  dsimp only
  rw [if_neg (by decide), htx, hid, hdigest]
  simp [hsame]

/-- **`committed` decides as the journal does.** -/
theorem Entry.InFlight.committed_iff {entry : Entry} {s : AgentState} {tx : TransactionRecord}
    (h : entry.InFlight s) (htx : s.inFlightTransaction = some tx) :
    committed s tx = true ↔ entry.landedOn.isSome = true := by
  obtain ⟨tx', htx', -, hphase⟩ := h
  have heq : tx' = tx := Option.some.inj (htx'.symm.trans htx)
  subst heq
  split at hphase
  · rename_i hl
    exact ⟨fun _ => hl, fun _ => hphase.2⟩
  · rename_i hl
    rw [committed_of_early hphase]
    exact ⟨fun h => absurd h (by simp), fun h => absurd h hl⟩

/-- A transaction before its commit has landed nothing. -/
theorem Entry.InFlight.landedOn_eq_none {entry : Entry} {s : AgentState} {tx : TransactionRecord}
    (h : entry.InFlight s) (htx : s.inFlightTransaction = some tx) (he : tx.phase.early = true) :
    entry.landedOn = none := by
  have hc := (h.committed_iff htx).not
  rw [committed_of_early he] at hc
  exact Option.not_isSome_iff_eq_none.1 (hc.1 (by simp))

theorem Entry.outcome_iff_of_none {entry : Entry} {s : AgentState} (hl : entry.landedOn = none) :
    entry.Outcome s ↔ Option.Rel Later entry.before.active s.active ∧
      s.previousActive = entry.before.previousActive := by
  unfold Entry.Outcome
  rw [hl]

/-- The transaction of the journal is not at a terminal phase. -/
theorem Entry.InFlight.not_terminal {entry : Entry} {s : AgentState} {tx : TransactionRecord}
    (h : entry.InFlight s) (htx : s.inFlightTransaction = some tx) : tx.phase.isTerminal = false := by
  obtain ⟨tx', htx', -, hphase⟩ := h
  have heq : tx' = tx := Option.some.inj (htx'.symm.trans htx)
  subst heq
  split at hphase
  · rw [hphase.1]
    rfl
  · exact DeployState.not_terminal_of_early hphase

/-- Beside a settled directory no transaction is at a terminal phase. -/
theorem Journaled.not_terminal {journal : Journal} {s : AgentState} (h : Journaled journal s)
    (hknown : journal ≠ .foreign) (tx : TransactionRecord) (htx : s.inFlightTransaction = some tx) :
    tx.phase.isTerminal = false := by
  match journal, h, hknown with
  | .clean, h, _ => rw [h.1] at htx; cases htx
  | .opened entry, h, _ => exact h.2.not_terminal htx

/-- What `committed` reads of the active record of a rollback holds of a
later generation of it. -/
theorem committed_moved {s s' : AgentState} {tx : TransactionRecord} (hm : Moved s s')
    (h : committed s tx = true) : committed s' tx = true := by
  unfold committed at h ⊢
  split at h
  · rw [hm.candidate]
    exact h
  · split at h
    · cases h
    · rename_i hphase
      rw [if_neg hphase]
      have hact := hm.active
      cases ha : s.active with
      | none => rw [ha] at h; cases h
      | some active =>
        rw [ha] at h hact
        dsimp only at h
        generalize s'.active = a' at hact
        cases hact with
        | some hl =>
          rename_i active'
          dsimp only
          obtain ⟨hid, hdigest, -⟩ := hl.same
          split at h
          · rename_i named hnamed
            obtain rfl | ⟨identity, next, hnow, hnow', hgen, hcfg, -⟩ := hl
            · exact h
            · rw [hnow] at h
              rw [hnow', hid]
              simp only [Bool.and_eq_true, decide_eq_true_eq, beq_iff_eq] at h ⊢
              exact ⟨h.1, Nat.le_trans h.2.1 (Nat.le_of_lt hgen), hcfg.trans h.2.2⟩
          · rw [hid, hdigest]
            exact h
          · cases h

/-- What a write beside the requests moves keeps what the journal says. -/
theorem Entry.Outcome.moved {entry : Entry} {s s' : AgentState} (h : entry.Outcome s)
    (hm : Moved s s') : entry.Outcome s' := by
  unfold Entry.Outcome at h ⊢
  split
  · rename_i hl
    rw [hl] at h
    exact ⟨later_trans h.1 hm.active, hm.previousActive.trans h.2⟩
  · rename_i found hl
    rw [hl] at h
    obtain ⟨hbefore, hprev, hold, hk⟩ := h
    refine ⟨hbefore, hprev, hm.previousActive.trans hold, ?_⟩
    split
    · rename_i hkind
      rw [hkind] at hk
      obtain ⟨candidate, now, hc, ha⟩ := hk
      exact ⟨candidate, now, hc, later_trans ha hm.active⟩
    · rename_i hkind
      rw [hkind] at hk
      obtain ⟨previous, started, now, hp, hs, ha⟩ := hk
      exact ⟨previous, started, now, hp, hs, later_trans ha hm.active⟩

/-- **The writes beside the requests keep what the journal says.** -/
theorem Journaled.moved {journal : Journal} {s s' : AgentState} (h : Journaled journal s)
    (hm : Moved s s') : Journaled journal s' := by
  match journal, h with
  | .foreign, _ => trivial
  | .clean, h => exact ⟨hm.inFlight.trans h.1, hm.candidate.trans h.2⟩
  | .opened entry, h =>
    obtain ⟨hout, tx, htx, hkind, hphase⟩ := h
    refine ⟨hout.moved hm, tx, hm.inFlight.trans htx, hkind, ?_⟩
    split
    · rename_i hl
      rw [if_pos hl] at hphase
      exact ⟨hphase.1, committed_moved hm hphase.2⟩
    · rename_i hl
      rw [if_neg hl] at hphase
      exact hphase

/-! ## Settling -/

/-- Nothing is left to settle where the pass writes nothing. -/
theorem clean_of_settling {s : AgentState} {now : ℕ} (h : settling s now = none) :
    s.inFlightTransaction = none ∧ s.candidate = none := by
  unfold settling at h
  cases htx : s.inFlightTransaction with
  | none =>
    rw [htx] at h
    dsimp only at h
    split at h
    · cases h
    · rename_i hc
      exact ⟨rfl, Option.not_isSome_iff_eq_none.1 hc⟩
  | some tx =>
    rw [htx] at h
    dsimp only at h
    split at h
    · rename_i hsettle
      unfold settle at hsettle
      rw [htx] at hsettle
      dsimp only at hsettle
      split at hsettle
      · cases hsettle
      · split at hsettle <;> cases hsettle
    · cases h
    · cases h
    · cases h

/-- **The settling write**: it changes the state, closes the journal, and
leaves no transaction and no candidate and the other records as they
were. -/
theorem settling_spec {docs : Documents} {s changed : AgentState} {now : ℕ} {write : Write}
    {taken : Taken} (h : settling s now = some write)
    (hrun : write.run docs s = .ok (taken, changed)) :
    (stamp changed).inFlightTransaction = none ∧ (stamp changed).candidate = none ∧
      (stamp changed).active = s.active ∧ (stamp changed).previousActive = s.previousActive ∧
      stamp changed ≠ s ∧ ∀ journal : Journal, journal.wrote s write = .clean := by
  unfold settling at h
  cases htx : s.inFlightTransaction with
  | none =>
    rw [htx] at h
    dsimp only at h
    split at h
    · rename_i hc
      cases h
      cases hrun
      refine ⟨htx, rfl, rfl, rfl, fun heq => ?_, fun _ => rfl⟩
      rw [← heq] at hc
      cases hc
    · cases h
  | some tx =>
    rw [htx] at h
    dsimp only at h
    have hne : ∀ t : AgentState, t.inFlightTransaction = none → t ≠ s := by
      rintro t ht rfl
      rw [ht] at htx
      cases htx
    split at h
    · cases h
    · cases h
      cases hrun
      exact ⟨rfl, rfl, rfl, rfl, hne _ rfl, fun _ => rfl⟩
    · cases h
      simp only [Write.run, htx] at hrun
      cases hrun
      exact ⟨rfl, rfl, rfl, rfl, hne _ rfl, fun _ => rfl⟩
    · cases h
      cases hrun
      exact ⟨rfl, rfl, rfl, rfl, hne _ rfl, fun _ => rfl⟩

/-! ## The writes of a request -/

namespace Request

variable {r : Request} {s s' : AgentState}

/-- A rollback that has not begun read the record that still stands in
the slot. -/
def Fresh (r : Request) (s : AgentState) : Prop :=
  (r.stage = .rechecking ∨ r.stage = .beginning) → r.kind = .rollback → s.previousActive = r.record

theorem Fresh.moved (h : r.Fresh s) (hm : Moved s s') : r.Fresh s' := by
  intro hst hkind
  rw [hm.previousActive]
  exact h hst hkind

theorem Waits.moved {tx : TransactionRecord} (h : r.Waits s tx) (hm : Moved s s') :
    r.Waits s' tx := by
  refine ⟨h.1, fun hkind => ?_⟩
  rw [hm.previousActive]
  exact h.2 hkind

theorem Recorded.moved (h : r.Recorded s) (hm : Moved s s') : r.Recorded s' := by
  intro hkind
  rw [hm.candidate]
  exact h hkind

theorem Ready.moved {tx : TransactionRecord} (h : r.Ready s tx) (hm : Moved s s') :
    r.Ready s' tx := by
  obtain ⟨reference, href, hk⟩ := h
  refine ⟨reference, href, ?_⟩
  obtain hkind | hkind := r.kind_cases
  · rw [hkind] at hk ⊢
    dsimp only at hk ⊢
    rw [hm.candidate]
    exact hk
  · rw [hkind] at hk ⊢
    obtain ⟨record, ht, hr⟩ := hk
    exact ⟨record, ht, hm.previousActive.trans hr.previous, hr.digest, hr.staged, hr.taken, hr.refers⟩

theorem Committed.moved (h : r.Committed s) (hm : Moved s s') : r.Committed s' := by
  obtain ⟨reference, record, href, ha, hrefers⟩ := h
  have hact := hm.active
  rw [ha] at hact
  generalize hs' : s'.active = a' at hact
  cases hact with
  | some hl => exact ⟨reference, _, href, hs', hrefers.trans_same hl.same⟩

theorem InFlight.moved {P Q : TransactionRecord → Prop} (h : r.InFlight s P) (hm : Moved s s')
    (hPQ : ∀ tx, P tx → Q tx) : r.InFlight s' Q := by
  obtain ⟨tx, htx, hd, he, hp⟩ := h
  exact ⟨tx, hm.inFlight.trans htx, hd, he, hPQ tx hp⟩

/-- **The writes beside a request keep what it relies on.** -/
theorem Expects.moved (h : r.Expects s) (hm : Moved s s') : r.Expects s' := by
  have hw : r.InFlight s (r.Waits s) → r.InFlight s' (r.Waits s') :=
    fun h => h.moved hm fun _ hw => hw.moved hm
  have hr : r.InFlight s (r.Ready s) → r.InFlight s' (r.Ready s') :=
    fun h => h.moved hm fun _ hr => hr.moved hm
  have ht : r.InFlight s (fun _ => True) → r.InFlight s' fun _ => True :=
    fun h => h.moved hm fun _ _ => trivial
  have hc : (∃ tx, s.inFlightTransaction = some tx ∧ r.Drives tx ∧ tx.phase = .promoted ∧
      r.Committed s) →
      ∃ tx, s'.inFlightTransaction = some tx ∧ r.Drives tx ∧ tx.phase = .promoted ∧
        r.Committed s' := by
    rintro ⟨tx, htx, hd, hp, hcm⟩
    exact ⟨tx, hm.inFlight.trans htx, hd, hp, hcm.moved hm⟩
  cases hst : r.stage <;> simp only [Expects, hst] at h ⊢
  case rechecking | beginning => exact h
  case recordVerified => exact hw h
  case verifying | recordDigest | staging => exact ⟨h.1, hw h.2⟩
  case recordCandidate => exact ⟨h.1, hw h.2.1, h.2.2⟩
  case recordStaged | checkingCapacity | recordCapacity | restaging =>
    exact ⟨hw h.1, h.2.moved hm⟩
  case holding | naming => exact ⟨hw h.1, h.2.1.moved hm, h.2.2⟩
  case releasing | failing | clearing => exact ht h
  case unholding failure =>
    cases failure with
    | none => exact hr h
    | some e => exact ht h
  case preparing | recordPrepared | warming | recordWarmed | fencing | committing => exact hr h
  case activating | reviewing | unloading | ending => exact hc h

/-- **Between its begin and its commit** a request's writes keep the
records and leave its transaction in flight, before its commit. -/
theorem progress_of_landed {docs : Documents} {write : Write} {taken : Taken}
    {changed : AgentState} {now : ℕ} (h : r.Expects s) (hop : r.op now = .write write)
    (hbegin : r.stage ≠ .beginning) (hcommit : r.stage ≠ .committing) (hend : r.stage ≠ .ending)
    (hclear : ∀ e, r.stage ≠ .clearing e) (hrun : write.run docs s = .ok (taken, changed)) :
    (∀ journal : Journal, journal.wrote s write = journal) ∧
      ∃ tx tx', s.inFlightTransaction = some tx ∧ tx.phase.early = true ∧
        changed.inFlightTransaction = some tx' ∧ tx'.kind = tx.kind ∧ tx'.phase.early = true ∧
        changed.active = s.active ∧ changed.previousActive = s.previousActive := by
  have hphase : ∀ (P : TransactionRecord → Prop) (phase : DeployState), phase.early = true →
      r.InFlight s P →
      Write.run docs s (.recordPhase r.transactionId phase now) = .ok (taken, changed) →
      ∃ tx tx', s.inFlightTransaction = some tx ∧ tx.phase.early = true ∧
        changed.inFlightTransaction = some tx' ∧ tx'.kind = tx.kind ∧ tx'.phase.early = true ∧
        changed.active = s.active ∧ changed.previousActive = s.previousActive := by
    rintro P phase hearly ⟨tx, htx, -, he, -⟩ hw
    obtain ⟨tx', htx', -, rfl⟩ := run_recordPhase hw
    have heq : tx = tx' := Option.some.inj (htx.symm.trans htx')
    subst heq
    exact ⟨tx, _, htx, he, rfl, rfl, hearly, rfl, rfl⟩
  cases hst : r.stage <;> simp only [op, hst, reduceCtorEq, Op.write.injEq] at hop <;>
    simp only [Expects, hst] at h
  case beginning => exact absurd hst hbegin
  case committing => exact absurd hst hcommit
  case ending => exact absurd hst hend
  case clearing e => exact absurd hst (hclear e)
  case preparing | warming | fencing | activating | leaving =>
    unfold onReference at hop
    split at hop <;> cases hop
  case recordVerified =>
    subst hop
    exact ⟨fun _ => rfl, hphase _ _ rfl h hrun⟩
  case recordDigest =>
    split at hop
    · rename_i verified _
      cases hop
      cases hrun
      obtain ⟨-, tx, htx, -, he, -⟩ := h
      refine ⟨fun _ => rfl, tx, { tx with bundleDigest := some verified.manifestDigest }, htx, he, ?_,
        rfl, he, rfl, rfl⟩
      simp [htx]
    · cases hop
  case recordCandidate =>
    obtain ⟨-, ⟨tx, htx, -, he, -⟩, record, ht⟩ := h
    simp only [onRecord, ht.1, Op.write.injEq] at hop
    subst hop
    cases hrun
    exact ⟨fun _ => rfl, tx, tx, htx, he, htx, rfl, he, rfl, rfl⟩
  case recordStaged | recordCapacity =>
    subst hop
    exact ⟨fun _ => rfl, hphase _ _ rfl h.1 hrun⟩
  case recordPrepared | recordWarmed =>
    subst hop
    exact ⟨fun _ => rfl, hphase _ _ rfl h hrun⟩
  case naming =>
    obtain ⟨⟨tx, htx, -, he, -⟩, -, -⟩ := h
    unfold onRecord at hop
    split at hop
    · split at hop
      · cases hop
        obtain ⟨tx', identity, -, htx', -, -, rfl⟩ := run_nameDeploy hrun
        have heq : tx = tx' := Option.some.inj (htx.symm.trans htx')
        subst heq
        exact ⟨fun _ => rfl, tx, _, htx, he, rfl, rfl, he, rfl, rfl⟩
      · cases hop
        obtain ⟨tx', -, identity, -, -, htx', -, -, -, -, rfl⟩ := run_nameRollback hrun
        have heq : tx = tx' := Option.some.inj (htx.symm.trans htx')
        subst heq
        exact ⟨fun _ => rfl, tx, _, htx, he, rfl, rfl, he, rfl, rfl⟩
    · cases hop

/-- What `swap_active_with_previous` leaves reads as committed: the record
it put back carries what the transaction names. -/
theorem committed_of_swap {s : AgentState} {tx : TransactionRecord}
    {previous started : DeploymentRecord} {now : ℕ} (hv : s.valid = true)
    (hkind : tx.kind = .rollback) (hid : tx.deploymentId = previous.deploymentId)
    (hdigest : tx.bundleDigest = some previous.bundleDigest)
    (hstaged : (splitDigest previous.bundleDigest).isSome = true)
    (hs : takeRollbackIdentity previous (some tx) = .ok started)
    (ha : s.active = some { started with promotedMonotonicNs := some now }) :
    committed s (recordCommit now tx) = true := by
  have hnamed : namedBy .rollback previous.deploymentId (some tx) = tx.descriptorIdentity := by
    rw [namedBy_some, if_pos ⟨hkind, hid⟩]
  unfold takeRollbackIdentity at hs
  rw [hnamed] at hs
  split at hs
  · -- neither names a descriptor: the bundle decides
    rename_i hnone
    cases hs
    exact committed_of_unnamed hkind rfl hnone ha hid.symm hdigest hstaged
  · rename_i recorded identity hrec htx
    split at hs
    · rename_i hlater
      cases hs
      have hcfg : previous.configurationDigest = some identity.configurationDigest := by
        rw [hlater.2]
        exact configurationDigest_of_identity hrec
      have hread := descriptorIdentity_active hv ha identity rfl rfl hcfg
      exact committed_of_named hkind rfl htx ha hid.symm hread (Nat.le_refl _) rfl
    · cases hs
  · cases hs

/-- The commit write of a request, as it lands: the journal has the state
it found, and the records are those it wrote. -/
theorem journaled_of_commit {docs : Documents} {write : Write} {taken : Taken}
    {changed : AgentState} {now : ℕ} {entry : Entry} (h : r.InFlight s (r.Ready s))
    (hst : r.stage = .committing) (hop : r.op now = .write write)
    (hrun : write.run docs s = .ok (taken, changed)) (hv : (stamp changed).valid = true)
    (hj : Journaled (.opened entry) s) :
    Journaled (Journal.wrote (.opened entry) s write) (stamp changed) := by
  obtain ⟨tx, htx, hdr, he, reference, href, hk⟩ := h
  obtain ⟨hout, hfly⟩ := hj
  rw [Entry.outcome_iff_of_none (hfly.landedOn_eq_none htx he)] at hout
  obtain ⟨tx', htx', hkind', -⟩ := hfly
  have heq : tx' = tx := Option.some.inj (htx'.symm.trans htx)
  subst heq
  simp only [op, hst] at hop
  obtain hkind | hkind := r.kind_cases
  · rw [hkind] at hop
    cases hop
    obtain ⟨candidate, hc, rfl⟩ := run_promoteCandidate hrun
    have hek : entry.kind = .deploy := hkind'.symm.trans (hdr.2.1.trans hkind)
    refine ⟨⟨hout.1, hout.2, rfl, ?_⟩, recordCommit now tx', by simp [htx], hkind', ?_⟩
    · rw [hek]
      exact ⟨candidate, now, hc, later_refl _⟩
    · refine ⟨rfl, ?_⟩
      unfold committed
      rw [show (recordCommit now tx').kind = .deploy from hkind'.trans hek]
      rfl
  · rw [hkind] at hop hk
    cases hop
    obtain ⟨record, ht, hr⟩ := hk
    obtain ⟨previous, started, hp, hs, rfl⟩ := run_swapActiveWithPrevious hrun
    have heq : record = previous := Option.some.inj (hr.previous.symm.trans hp)
    subst heq
    have hek : entry.kind = .rollback := hkind'.symm.trans (hdr.2.1.trans hkind)
    refine ⟨⟨hout.1, hout.2, rfl, ?_⟩, recordCommit now tx', by simp [htx], hkind', ?_⟩
    · rw [hek]
      exact ⟨record, started, now, hp, hs, later_refl _⟩
    · refine ⟨rfl, ?_⟩
      rw [htx] at hs
      exact committed_of_swap hv (hkind'.trans hek) (hdr.2.2.trans ht.2.symm) hr.digest hr.staged hs
        rfl

/-- **A write of a request keeps what the journal says**, once it landed. -/
theorem journaled_of_landed {docs : Documents} {write : Write} {taken : Taken}
    {changed : AgentState} {now : ℕ} {journal : Journal} (h : r.Expects s)
    (hop : r.op now = .write write) (hj : Journaled journal s) (hknown : journal ≠ .foreign)
    (hrun : write.run docs s = .ok (taken, changed)) (hv : (stamp changed).valid = true) :
    Journaled (journal.wrote s write) (stamp changed) := by
  have hopened : ∀ tx, s.inFlightTransaction = some tx →
      ∃ entry, journal = .opened entry := by
    intro tx htx
    match journal, hj, hknown with
    | .clean, hj, _ => rw [hj.1] at htx; cases htx
    | .opened entry, _, _ => exact ⟨entry, rfl⟩
  by_cases hbegin : r.stage = .beginning
  · simp only [op, hbegin, Op.write.injEq] at hop
    subst hop
    obtain ⟨-, rfl⟩ := run_beginTransaction (hj.not_terminal hknown) hrun
    exact ⟨⟨later_refl _, rfl⟩, _, rfl, rfl, rfl⟩
  by_cases hcommit : r.stage = .committing
  · simp only [Expects, hcommit] at h
    have hfly := h
    obtain ⟨tx, htx, -⟩ := hfly
    obtain ⟨entry, rfl⟩ := hopened tx htx
    exact journaled_of_commit h hcommit hop hrun hv hj
  by_cases hend : r.stage = .ending
  · simp only [op, hend, Op.write.injEq] at hop
    subst hop
    cases hrun
    exact ⟨rfl, rfl⟩
  by_cases hclear : ∃ e, r.stage = .clearing e
  · obtain ⟨e, hclear⟩ := hclear
    simp only [op, hclear] at hop
    split at hop
    · cases hop
      simp only [Write.run] at hrun
      split at hrun
      · cases hrun
      · cases hrun
        exact ⟨rfl, rfl⟩
    · cases hop
      cases hrun
      exact ⟨rfl, rfl⟩
  · rw [not_exists] at hclear
    obtain ⟨hsame, tx, tx', htx, he, htx', hkind, he', ha, hp⟩ :=
      progress_of_landed h hop hbegin hcommit hend hclear hrun
    rw [hsame]
    obtain ⟨entry, rfl⟩ := hopened tx htx
    obtain ⟨hout, hfly⟩ := hj
    have hnone := hfly.landedOn_eq_none htx he
    obtain ⟨tx'', htx'', hkind'', -⟩ := hfly
    have heq : tx'' = tx := Option.some.inj (htx''.symm.trans htx)
    subst heq
    rw [Entry.outcome_iff_of_none hnone] at hout
    refine ⟨(Entry.outcome_iff_of_none hnone).2 ⟨?_, ?_⟩, tx', htx', hkind.trans hkind'', ?_⟩
    · rw [stamp_active, ha]
      exact hout.1
    · rw [stamp_previousActive, hp]
      exact hout.2
    · rw [hnone]
      exact he'

/-- A write that leaves the state as it was opens and closes nothing. -/
theorem wrote_of_unchanged {docs : Documents} {write : Write} {taken : Taken}
    {changed : AgentState} {now : ℕ} {journal : Journal} (h : r.Expects s)
    (hop : r.op now = .write write) (hj : Journaled journal s) (hknown : journal ≠ .foreign)
    (hrun : write.run docs s = .ok (taken, changed)) (hsame : stamp changed = s) :
    journal.wrote s write = journal := by
  have htx : changed.inFlightTransaction = s.inFlightTransaction := by
    rw [← stamp_inFlightTransaction, hsame]
  by_cases hbegin : r.stage = .beginning
  · simp only [op, hbegin, Op.write.injEq] at hop
    subst hop
    obtain ⟨hnone, rfl⟩ := run_beginTransaction (hj.not_terminal hknown) hrun
    rw [hnone] at htx
    cases htx
  by_cases hcommit : r.stage = .committing
  · simp only [Expects, hcommit] at h
    obtain ⟨tx, htx₀, -, he, -⟩ := h
    have hcm : changed.inFlightTransaction = s.inFlightTransaction.map (recordCommit now) := by
      simp only [op, hcommit] at hop
      split at hop
      · cases hop
        obtain ⟨candidate, -, rfl⟩ := run_promoteCandidate hrun
        rfl
      · cases hop
        obtain ⟨previous, started, -, -, rfl⟩ := run_swapActiveWithPrevious hrun
        rfl
    rw [hcm, htx₀, Option.map_some, Option.some.injEq] at htx
    rw [← htx] at he
    cases he
  have howned : ∀ tx, s.inFlightTransaction = some tx → changed.inFlightTransaction = none →
      journal.wrote s write = journal := by
    intro tx htx₀ hnone
    rw [hnone, htx₀] at htx
    cases htx
  by_cases hend : r.stage = .ending
  · have ho : r.owns = true := by simp [owns, hend]
    obtain ⟨tx, htx₀, -⟩ := h.inFlight ho
    simp only [op, hend, Op.write.injEq] at hop
    subst hop
    cases hrun
    exact howned tx htx₀ rfl
  by_cases hclear : ∃ e, r.stage = .clearing e
  · obtain ⟨e, hclear⟩ := hclear
    have ho : r.owns = true := by simp [owns, hclear]
    obtain ⟨tx, htx₀, -⟩ := h.inFlight ho
    simp only [op, hclear] at hop
    split at hop
    · cases hop
      simp only [Write.run, htx₀] at hrun
      cases hrun
      exact howned tx htx₀ rfl
    · cases hop
      cases hrun
      exact howned tx htx₀ rfl
  · rw [not_exists] at hclear
    exact (progress_of_landed h hop hbegin hcommit hend hclear hrun).1 journal

/-- From its begin on a request does not come back to it. -/
def late (r : Request) : Bool :=
  match r.stage with
  | .entering | .reading | .rechecking | .beginning => false
  | _ => true

theorem late_leave {e : Option AgentError} : (r.leave e).late = true := by
  unfold leave
  split
  · rfl
  · rfl

theorem late_advanced {reply : Reply} {next : Stage} (h : r.late = true)
    (hn : (r.at next).late = true) : (r.advanced reply next).late = true := by
  unfold advanced
  split
  · exact hn
  · exact late_leave
  · exact h

theorem late_start (h : r.late = true) : r.start.late = true := by
  unfold Request.start
  split
  · exact h
  · rfl
  · split
    · rfl
    · rfl

theorem late_restaged {record : DeploymentRecord} {described : Bool} :
    (r.restaged record described).late = true := by
  unfold restaged
  split
  · rfl
  · rfl

theorem late_resume (h : r.late = true) (reply : Reply) : (r.resume reply).late = true := by
  unfold resume
  have h' := h
  cases hst : r.stage <;> simp only [late, hst, Bool.false_eq_true] at h' <;> dsimp only
  case recordVerified | recordStaged =>
    split
    · exact late_advanced h rfl
    · exact late_advanced h rfl
  case recordDigest | recordCandidate | recordPrepared | recordWarmed => exact late_advanced h rfl
  case recordCapacity =>
    split
    · exact late_start h
    · exact late_leave
    · exact h
  case restaging =>
    split
    · split
      · exact late_restaged
      · rfl
    · rfl
    · exact h
  case preparing =>
    split
    · split <;> rfl
    · split <;> rfl
    · exact h
  case unholding failure =>
    split
    · split <;> rfl
    · exact h
  case activating =>
    split
    · split <;> rfl
    · exact late_leave
    · exact h
  case reviewing =>
    split
    · split <;> rfl
    · exact late_leave
    · exact h
  case ending =>
    split
    · rfl
    · exact late_leave
    · exact h
  case failing e =>
    split
    · exact late_leave
    · rfl
    · exact h
  case clearing e =>
    split
    · exact late_leave
    · exact late_leave
    · exact h
  all_goals first
    | exact h
    | (split <;> first | rfl | exact h)

theorem fresh_of_late (h : r.late = true) : r.Fresh s := by
  intro hst
  unfold late at h
  obtain hst | hst := hst
  · rw [hst] at h
    cases h
  · rw [hst] at h
    cases h

/-- **The slot a rollback read stays as it was read** until it begins. -/
theorem Fresh.resume (h : r.Fresh s) {reply : Reply}
    (hread : r.stage = .reading → reply = .state s) : (r.resume reply).Fresh s := by
  by_cases hl : r.late = true
  · exact fresh_of_late (late_resume hl reply)
  · have hl' := hl
    unfold Request.resume
    cases hst : r.stage <;> simp only [late, hst, not_true_eq_false] at hl' <;> dsimp only
    case entering =>
      split
      · exact fresh_of_late rfl
      · split
        · rename_i hkind
          rintro - hk
          rw [show (r.at .beginning).kind = r.kind from rfl, hkind] at hk
          cases hk
        · intro hst'
          obtain hst' | hst' := hst' <;> cases hst'
      · exact h
    case reading =>
      rw [hread hst]
      dsimp only
      split
      · exact fresh_of_late rfl
      · rename_i previous hp
        exact fun _ _ => hp
    case rechecking =>
      split
      · exact fun _ hk => h (.inl hst) hk
      · exact fresh_of_late rfl
      · exact h
    case beginning =>
      have hadv : ∀ next, (r.at next).late = true → (r.advanced reply next).Fresh s := by
        intro next hn
        unfold advanced
        split
        · exact fresh_of_late hn
        · exact fresh_of_late late_leave
        · exact h
      split
      · exact hadv _ rfl
      · exact hadv _ rfl

/-- After a write a request has begun, or is over. -/
theorem late_of_write {write : Write} {now : ℕ} {reply : Reply} (hop : r.op now = .write write)
    (hreply : (∃ taken, reply = .taken taken) ∨ ∃ e, reply = .failed e) :
    (r.resume reply).late = true := by
  by_cases hl : r.late = true
  · exact late_resume hl reply
  · cases hst : r.stage <;> simp only [late, hst, not_true_eq_false] at hl <;>
      simp only [op, hst, reduceCtorEq] at hop
    unfold resume
    rw [hst]
    dsimp only
    have hadv : ∀ next, (r.at next).late = true → (r.advanced reply next).late = true := by
      intro next hn
      unfold advanced
      obtain ⟨taken, rfl⟩ | ⟨e, rfl⟩ := hreply
      · exact hn
      · exact late_leave
    split
    · exact hadv _ rfl
    · exact hadv _ rfl

end Request

end Agent

end Tensorplate
