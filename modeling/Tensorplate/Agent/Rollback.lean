import Tensorplate.Agent.Requests
import Tensorplate.Lib.Runs

/-!
# Concurrent requests

Any number of requests interleave on one coordinator. The store's busy
check leaves at most one of them between its begin and its end, so what
that one relies on nobody else touches. A rollback, though, reads the
record it will restore before it begins: where another request commits in
between, the swap restores a record the rollback did not prepare.
-/

namespace Tensorplate

namespace Agent

open Lib StateStore

namespace Coordinator

/-- The worker control was last told to activate the active record; told
nothing, the active record is the one the agent started with. -/
def Told (first : Option DeploymentRecord) (c : Coordinator) : Prop :=
  match c.told with
  | none => c.state.active = first
  | some reference => ∃ record, c.state.active = some record ∧ Refers record reference

/-- **What holds between any two steps of the requests.** -/
structure Sound (first : Option DeploymentRecord) (c : Coordinator) : Prop where
  expects : ∀ (i : ℕ) (r : Request), c.requests[i]? = some r → r.Expects c.state
  single : ∀ (i j : ℕ) (r q : Request), c.requests[i]? = some r → c.requests[j]? = some q → r.owns = true →
    q.owns = true → i = j
  running : ∀ tx, c.state.inFlightTransaction = some tx → tx.phase.isTerminal = false
  told : (∀ (i : ℕ) (r : Request), c.requests[i]? = some r → r.stage ≠ .activating) → Told first c

/-- **A rollback begins on the record it read.** -/
def Steady (c : Coordinator) : Action → Prop
  | .step i _ => ∀ r : Request, c.requests[i]? = some r → r.stage = .beginning → r.kind = .rollback →
      c.state.previousActive = r.record
  | _ => True

variable {first : Option DeploymentRecord} {c c' : Coordinator}

theorem Told.congr (h : Told first c) (ht : c'.told = c.told)
    (ha : c'.state.active = c.state.active) : Told first c' := by
  unfold Told at h ⊢
  rw [ht, ha]
  exact h

/-- The other requests after one of them was replaced. -/
theorem get_set {i j : ℕ} {l : List Request} {r q r' : Request} (hi : l[i]? = some r)
    (hj : (l.set i r')[j]? = some q) : i = j ∧ q = r' ∨ i ≠ j ∧ l[j]? = some q := by
  by_cases hij : i = j
  · subst hij
    have hlt : i < l.length := (List.getElem?_eq_some_iff.1 hi).1
    rw [List.getElem?_set_self hlt, Option.some.injEq] at hj
    exact .inl ⟨rfl, hj.symm⟩
  · rw [List.getElem?_set_ne hij] at hj
    exact .inr ⟨hij, hj⟩

/-- A request that arrives owns nothing. -/
theorem Sound.arrive {r : Request} (h : Sound first c) (hr : ∀ s, r.Expects s)
    (ho : r.owns = false) : Sound first { c with requests := c.requests ++ [r] } := by
  have hcases : ∀ (i : ℕ) (q : Request), (c.requests ++ [r])[i]? = some q →
      c.requests[i]? = some q ∨ q = r := by
    intro i q hq
    rw [List.getElem?_append] at hq
    split at hq
    · exact .inl hq
    · have hmem := List.mem_of_getElem? hq
      exact .inr (List.mem_singleton.1 hmem)
  refine ⟨fun i q hq => ?_, fun i j q p hq hp hqo hpo => ?_, h.running, fun hact => ?_⟩
  · obtain hq | rfl := hcases i q hq
    · exact h.expects i q hq
    · exact hr _
  · obtain hq | rfl := hcases i q hq
    · obtain hp | rfl := hcases j p hp
      · exact h.single i j q p hq hp hqo hpo
      · rw [ho] at hpo
        cases hpo
    · rw [ho] at hqo
      cases hqo
  · refine h.told fun i q hq => hact i q ?_
    have hlt : i < c.requests.length := (List.getElem?_eq_some_iff.1 hq).1
    rw [List.getElem?_append_left hlt]
    exact hq

/-- **An answer keeps what holds**, and `activate` tells the worker control
the active record. -/
theorem Sound.asked {i now : ℕ} {r : Request} {reply : Reply} {told : Option CandidateRef}
    (h : Sound first c) (hi : c.requests[i]? = some r) (hop : ∀ write, r.op now ≠ .write write)
    (htold : r.stage ≠ .activating → told = c.told)
    (hact : r.stage = .activating → told = r.reference) :
    Sound first { c.resumed i r reply with told := told } := by
  refine ⟨fun j q hq => ?_, fun j k q p hq hp hqo hpo => ?_, h.running, fun hnone => ?_⟩
  · obtain ⟨-, rfl⟩ | ⟨-, hq⟩ := get_set hi hq
    · exact (h.expects i r hi).asked hop reply
    · exact h.expects j q hq
  · obtain ⟨rfl, rfl⟩ | ⟨-, hq⟩ := get_set hi hq
    · have hro := Request.owns_of_asked hop hqo
      obtain ⟨rfl, -⟩ | ⟨-, hp⟩ := get_set hi hp
      · rfl
      · exact h.single i k r p hi hp hro hpo
    · obtain ⟨rfl, rfl⟩ | ⟨-, hp⟩ := get_set hi hp
      · exact h.single j i q r hq hi hqo (Request.owns_of_asked hop hpo)
      · exact h.single j k q p hq hp hqo hpo
  · by_cases hst : r.stage = .activating
    · have hexp := h.expects i r hi
      simp only [Request.Expects, hst] at hexp
      obtain ⟨-, -, -, -, reference, record, href, hactive, hrefers⟩ := hexp
      unfold Told
      rw [hact hst, href]
      exact ⟨record, hactive, hrefers⟩
    · have hold := h.told fun j q hq => by
        by_cases hij : i = j
        · subst hij
          rw [hi, Option.some.injEq] at hq
          exact hq ▸ hst
        · exact hnone j q (by rw [resumed, List.getElem?_set_ne hij]; exact hq)
      exact hold.congr (htold hst) rfl

/-- **A write keeps what holds.** -/
theorem Sound.wrote {i : ℕ} {r : Request} {env : Env} {write : Write} {reply : Reply}
    {s' : AgentState} (h : Sound first c) (hi : c.requests[i]? = some r)
    (hop : r.op env.now = .write write)
    (hbegin : r.stage = .beginning → r.kind = .rollback → c.state.previousActive = r.record)
    (hw : Wrote env.docs write c.state reply s') :
    Sound first { c.resumed i r reply with state := s' } := by
  have hexp := h.expects i r hi
  have hexp' := hexp.wrote hop (fun _ => h.running) hbegin hw
  -- nobody else owns the transaction, before the write or after it
  have hothers : ∀ (j : ℕ) (q : Request), i ≠ j → c.requests[j]? = some q →
      (r.resume reply).owns = true ∨ s' ≠ c.state → q.owns = false := by
    intro j q hij hq hchange
    by_contra hqo
    rw [Bool.not_eq_false] at hqo
    by_cases hro : r.owns = true
    · exact hij (h.single i j r q hi hq hro hqo)
    · rw [Bool.not_eq_true] at hro
      have hst := Request.stage_of_write hop hro
      obtain ⟨tx, htx, -, hterm⟩ := (h.expects j q hq).inFlight hqo
      cases hw with
      | refused e =>
        obtain hown | hne := hchange
        · unfold Request.resume at hown
          rw [hst] at hown
          dsimp only at hown
          split at hown
          · rw [Request.advanced, Request.owns_leave] at hown
            cases hown
          · rw [Request.advanced, Request.owns_leave] at hown
            cases hown
        · exact hne rfl
      | landed hrun hv =>
        simp only [Request.op, hst, Op.write.injEq] at hop
        subst hop
        obtain ⟨hnone, -⟩ := run_beginTransaction h.running hrun
        rw [hnone] at htx
        cases htx
  have hkeep : ∀ (j : ℕ) (q : Request), i ≠ j → c.requests[j]? = some q → q.Expects s' := by
    intro j q hij hq
    by_cases hs : s' = c.state
    · rw [hs]
      exact h.expects j q hq
    · exact (h.expects j q hq).of_not_owns (hothers j q hij hq (.inr hs))
  refine ⟨fun j q hq => ?_, fun j k q p hq hp hqo hpo => ?_, fun tx htx => ?_, fun hnone => ?_⟩
  · obtain ⟨-, rfl⟩ | ⟨hij, hq⟩ := get_set hi hq
    · exact hexp'
    · exact hkeep j q hij hq
  · obtain ⟨rfl, rfl⟩ | ⟨hij, hq⟩ := get_set hi hq
    · obtain ⟨rfl, -⟩ | ⟨hik, hp⟩ := get_set hi hp
      · rfl
      · rw [hothers k p hik hp (.inl hqo)] at hpo
        cases hpo
    · obtain ⟨rfl, rfl⟩ | ⟨hik, hp⟩ := get_set hi hp
      · rw [hothers j q hij hq (.inl hpo)] at hqo
        cases hqo
      · exact h.single j k q p hq hp hqo hpo
  · by_cases ho : (r.resume reply).owns = true
    · obtain ⟨tx', htx', -, hterm⟩ := hexp'.inFlight ho
      have heq : tx' = tx := Option.some.inj (htx'.symm.trans htx)
      exact heq ▸ hterm
    · rw [Bool.not_eq_true] at ho
      cases hw with
      | refused e => exact h.running tx htx
      | landed hrun hv =>
        have hnone := Request.inFlight_of_landed hop hrun ho
        rw [stamp_inFlightTransaction, hnone] at htx
        cases htx
  · have hold := h.told fun j q hq => by
      by_cases hij : i = j
      · subst hij
        rw [hi, Option.some.injEq] at hq
        subst hq
        intro hst
        simp only [Request.op, hst] at hop
        unfold Request.onReference at hop
        split at hop <;> cases hop
      · exact hnone j q (by rw [resumed, List.getElem?_set_ne hij]; exact hq)
    have hactive : s'.active = c.state.active := by
      cases hw with
      | refused e => rfl
      | landed hrun hv =>
        by_cases hst : r.stage = .committing
        · have hlt : i < c.requests.length := (List.getElem?_eq_some_iff.1 hi).1
          refine absurd ?_ (hnone i _ (List.getElem?_set_self hlt))
          unfold Request.resume
          rw [hst]
        · rw [stamp_active]
          exact Request.active_of_landed hop hst hrun
    exact hold.congr rfl hactive

/-- **Every step that keeps a rollback steady keeps what holds.** -/
theorem Sound.step {a : Action} (h : Sound first c) (hs : Steady c a)
    (hstep : c.step a = some c') : Sound first c' := by
  cases a with
  | deploy transactionId deploymentId bundlePath labels correlationId streaming =>
    simp only [Coordinator.step, Option.some.injEq] at hstep
    subst hstep
    have hst := Request.stage_deploy transactionId deploymentId bundlePath labels correlationId
      streaming
    exact h.arrive (fun s => (Request.expects_arrived hst).1) (Request.expects_arrived (s := c.state) hst).2
  | rollback transactionId correlationId =>
    simp only [Coordinator.step, Option.some.injEq] at hstep
    subst hstep
    exact h.arrive (fun s => trivial) rfl
  | step i env =>
    simp only [Coordinator.step] at hstep
    split at hstep
    · cases hstep
    · rename_i r hi
      split at hstep
      · cases hstep
      · rename_i write hop
        simp only [Option.some.injEq] at hstep
        subst hstep
        exact h.wrote hi hop (hs r hi) (wrote_of_tryWrite rfl)
      · rename_i hop
        simp only [Option.some.injEq] at hstep
        subst hstep
        have hwrite : ∀ write, r.op env.now ≠ .write write := by simp [hop]
        refine h.asked hi hwrite (fun _ => rfl) fun hst => ?_
        simp only [Request.op, hst] at hop
        unfold Request.onReference at hop
        split at hop <;> cases hop
      · rename_i reference hop
        simp only [Option.some.injEq] at hstep
        subst hstep
        obtain ⟨hst, href⟩ := Request.stage_of_activate hop
        have hwrite : ∀ write, r.op env.now ≠ .write write := by simp [hop]
        exact h.asked hi hwrite (fun hne => absurd hst hne) fun _ => href.symm
      · rename_i hidle hwrite hsnap hactivate
        simp only [Option.some.injEq] at hstep
        subst hstep
        refine h.asked hi (fun write => hwrite write) (fun _ => rfl) fun hst => ?_
        have hexp := h.expects i r hi
        simp only [Request.Expects, hst] at hexp
        obtain ⟨-, -, -, -, reference, -, href, -⟩ := hexp
        refine absurd ?_ (hactivate reference)
        simp only [Request.op, hst, Request.onReference, href]

/-- A coordinator with no transaction in flight and no request. -/
theorem sound_start {s : AgentState} (hs : s.inFlightTransaction = none) :
    Sound s.active { state := s } := by
  refine ⟨by simp, by simp, fun tx htx => ?_, fun _ => rfl⟩
  rw [show AgentState.inFlightTransaction _ = none from hs] at htx
  cases htx

/-- A rollback's commit keeps the reference it prepared. -/
theorem reference_of_commit {i : ℕ} {r q : Request} {env : Env} (hi : c.requests[i]? = some r)
    (hst : r.stage = .committing) (hkind : r.kind = .rollback)
    (hstep : c.step (.step i env) = some c') (hq : c'.requests[i]? = some q) :
    q.reference = r.reference := by
  have hop : r.op env.now = .write (.swapActiveWithPrevious env.now) := by
    simp only [Request.op, hst, hkind]
  simp only [Coordinator.step, hi, hop, Option.some.injEq] at hstep
  subst hstep
  obtain ⟨-, rfl⟩ | ⟨hne, -⟩ := get_set hi hq
  · unfold Request.resume
    rw [hst]
    dsimp only
    split <;> rfl
  · exact absurd rfl hne

/-- **A rollback that begins on the record it read restores the record it
prepared.** Where it commits, the swap finds the identity its transaction
names and makes the record of its reference active; and with no transaction
in flight the worker control was last told to activate the active record. -/
theorem rollback_restores_what_it_prepared {s : AgentState} (hs : s.inFlightTransaction = none)
    {c : Coordinator} (hrun : Run Coordinator.step Steady { state := s } c) :
    (∀ (i : ℕ) (r : Request), c.requests[i]? = some r → r.stage = .committing →
      r.kind = .rollback → ∀ record, c.state.previousActive = some record →
        ∃ started, takeRollbackIdentity record c.state.inFlightTransaction = .ok started) ∧
    (∀ (i : ℕ) (r q : Request) (env : Env) (c' : Coordinator), c.requests[i]? = some r →
      r.stage = .committing → r.kind = .rollback → c.step (.step i env) = some c' →
      c'.requests[i]? = some q → q.stage = .activating →
        ∃ record reference, c'.state.active = some record ∧ r.reference = some reference ∧
          Refers record reference) ∧
    (c.state.inFlightTransaction = none → Told s.active c) := by
  have hsound := hrun.invariant (sound_start hs) fun _ _ _ h hok hstep => h.step hok hstep
  refine ⟨fun i r hi hst hkind record hrec => ?_, fun i r q env c' hi hst hkind hstep hq hact => ?_,
    fun hnone => hsound.told fun i r hi hst => ?_⟩
  · have hexp := hsound.expects i r hi
    simp only [Request.Expects, hst] at hexp
    obtain ⟨tx, htx, -, -, reference, -, hk⟩ := hexp
    rw [hkind] at hk
    obtain ⟨record', -, hready⟩ := hk
    have heq : record' = record := Option.some.inj (hready.previous.symm.trans hrec)
    rw [htx, ← heq]
    exact hready.taken
  · have hsteady : Steady c (.step i env) := fun r' hi' hst' => by
      have heq : r' = r := Option.some.inj (hi'.symm.trans hi)
      rw [heq, hst] at hst'
      cases hst'
    have hexp := (hsound.step hsteady hstep).expects i q hq
    simp only [Request.Expects, hact] at hexp
    obtain ⟨-, -, -, -, reference, record, href, hactive, hrefers⟩ := hexp
    exact ⟨record, reference, hactive, reference_of_commit hi hst hkind hstep hq ▸ href, hrefers⟩
  · have hexp := hsound.expects i r hi
    simp only [Request.Expects, hst] at hexp
    obtain ⟨tx, htx, -⟩ := hexp
    rw [hnone] at htx
    cases htx

/-! ## The record it read, replaced -/

/-- A record of a bundle without a descriptor. -/
def plainRecord (deploymentId digest : String) : DeploymentRecord :=
  { deploymentId := deploymentId
    bundleDigest := digest
    bundleName := "yolov8n"
    bundleVersion := "1.0.0"
    backendHint := "mock"
    modelClass := "vision"
    stagedPath := "/staging/" ++ deploymentId }

/-- `d2` is active and `d1` was active before it. -/
def twoDeployed : AgentState :=
  { storeVersion := 9
    active := some (plainRecord "d2" "sha256:02")
    previousActive := some (plainRecord "d1" "sha256:01") }

/-- A step of request `i` on an answer, with no descriptor document. -/
def answer (i : ℕ) (reply : Reply) : Action :=
  .step i
    { reply := reply
      docs := ⟨fun _ _ => .error "is missing", fun _ _ => .error "", fun _ _ => .error (.internal, ""),
        fun _ _ => none⟩ }

/-- A rollback reads `d1`; a deploy of `d3` runs from its arrival to its
end; the rollback then begins and runs to its end. -/
def overtaken : List Action :=
  [.rollback "tx-1" none] ++
    [.answered false, .done, .text "model.engine"].map (answer 0) ++
    [.deploy "tx-2" "d3" "/bundles/d3" [] none false] ++
    [.answered false, .done,
      .verified ⟨"sha256:03", "yolov8n", "1.0.0", "mock", "vision", some "model.engine", false⟩,
      .done, .done, .text "/staging/d3", .done, .done, .done, .done, .done, .done, .answered true,
      .done, .done, .done, .done, .done, .done, .done].map (answer 1) ++
    [.done, .done, .done, .done, .text "sha256:01", .done, .done, .answered true, .done, .done,
      .done, .done, .done].map (answer 0)

/-- **An overtaken rollback restores a record it did not prepare.** Both
requests end well, `d2` is the active record and the worker control was
last told to activate `d1`. -/
theorem overtaken_rollback_restores_another :
    twoDeployed.inFlightTransaction = none ∧
      ∃ c, exec Coordinator.step { state := twoDeployed } overtaken = some c ∧
        c.requests.map (·.stage) = [.finished none, .finished none] ∧
        c.state.inFlightTransaction = none ∧
        c.state.active.map (·.deploymentId) = some "d2" ∧
        c.told.map (·.deploymentId) = some "d1" :=
  ⟨rfl, _, rfl, rfl, rfl, rfl, rfl⟩

/-- Whether a rollback that begins here begins on the record it read. -/
def steady (c : Coordinator) : Action → Bool
  | .step i _ =>
    match c.requests[i]? with
    | none => true
    | some r =>
      !(r.stage == .beginning && r.kind == .rollback) || c.state.previousActive == r.record
  | _ => true

theorem steady_sound (c : Coordinator) (a : Action) (h : steady c a = true) : Steady c a := by
  cases a with
  | deploy _ _ _ _ _ _ => trivial
  | rollback _ _ => trivial
  | step i env =>
    intro r hi hst hkind
    simp only [steady, hi, hst, hkind, beq_self_eq_true, Bool.and_self, Bool.not_true,
      Bool.false_or, beq_iff_eq] at h
    exact h

/-- The rollback alone. -/
def undisturbed : List Action :=
  [.rollback "tx-1" none] ++
    [.answered false, .done, .text "model.engine", .done, .done, .done, .done, .text "sha256:01",
      .done, .done, .answered true, .done, .done, .done, .done, .done].map (answer 0)

theorem undisturbed_rollback_restores :
    ∃ c, Run Coordinator.step Steady { state := twoDeployed } c ∧
      c.state.active.map (·.deploymentId) = some "d1" ∧ Told twoDeployed.active c := by
  have hexec : (exec (fun c a => if steady c a then Coordinator.step c a else none)
      { state := twoDeployed } undisturbed).isSome = true := rfl
  obtain ⟨c, hc⟩ := Option.isSome_iff_exists.1 hexec
  have hactive : (exec (fun c a => if steady c a then Coordinator.step c a else none)
      { state := twoDeployed } undisturbed).map
      (fun c => (c.state.active.map (·.deploymentId), c.state.inFlightTransaction)) =
      some (some "d1", none) := rfl
  rw [hc, Option.map_some, Option.some.injEq, Prod.mk.injEq] at hactive
  have hrun := Run.of_checked steady_sound hc
  exact ⟨c, hrun, hactive.1, (rollback_restores_what_it_prepared rfl hrun).2.2 hactive.2⟩

end Coordinator

end Agent

end Tensorplate
