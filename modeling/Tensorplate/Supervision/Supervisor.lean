import Mathlib.Tactic.Common
import Tensorplate.Supervision.Model.Supervisor

/-!
# When the supervisor launches

Along any history of calls, ticks and processes that end, whatever the
process and the probe answer: a tick launches only what is desired, held by
no handle and due; a stop holds until it is lifted; one process runs at a
time. The two holds the restart policy asks for are weaker in the code than
documented. `stopped` is no terminal phase, so the tick after a disabled
policy's answer launches again, and clearing the desired deployment takes
the phase out of `crash_loop`. `obeys_iff` says exactly which histories
escape both.
-/

namespace Tensorplate

namespace Supervision

/-! ## What holds a launch back -/

/-- The restart policy's answer in an operation. -/
def decisionAt (cfg : SupervisorConfig) (h : List Op) : Op → Option BackoffDecision
  | .tick a => ((Host.after cfg h).inner.tick cfg a).decision
  | _ => none

/-- An operation in which the policy answered `EnterCrashLoop`. -/
def crashesAt (cfg : SupervisorConfig) (h : List Op) (o : Op) : Bool :=
  ((decisionAt cfg h o).map BackoffDecision.isCrashLoop).getD false

/-- The policy answered `EnterCrashLoop`, and no operator has recovered the
supervisor since. -/
def crashLooped (cfg : SupervisorConfig) : List Op → Bool
  | [] => false
  | .recoverAfterOperatorAction _ :: _ => false
  | o :: h => crashesAt cfg h o || crashLooped cfg h

/-- The policy answered `PolicyDisabled`, and neither a desired deployment
nor a recovery has come since. -/
def policyHeld (cfg : SupervisorConfig) : List Op → Bool
  | [] => false
  | .recoverAfterOperatorAction _ :: _ => false
  | .setDesiredActive _ :: _ => false
  | o :: h => decide (decisionAt cfg h o = some .policyDisabled) || policyHeld cfg h

/-- A stop found a worker, and neither call that lifts it has come since. -/
def stopHeld (cfg : SupervisorConfig) : List Op → Bool
  | [] => false
  | .recoverAfterOperatorAction _ :: _ => false
  | .setDesiredActive _ :: _ => false
  | .requestStop :: h => (Host.after cfg h).inner.handle.isSome || stopHeld cfg h
  | _ :: h => stopHeld cfg h

/-- The desired deployment was cleared after the last crash loop. -/
def clearedSince (cfg : SupervisorConfig) : List Op → Bool
  | [] => false
  | .recoverAfterOperatorAction _ :: _ => false
  | .setDesiredActive none :: _ => true
  | o :: h => !crashesAt cfg h o && clearedSince cfg h

def launchesAt (cfg : SupervisorConfig) (h : List Op) (a : Answers) : Bool :=
  ((Host.after cfg h).inner.tick cfg a).calls.any ProcessCall.isLaunch

/-- A tick that launches may: nothing runs, a deployment is desired and due,
and nothing holds it back. -/
structure MayLaunch (cfg : SupervisorConfig) (h : List Op) (a : Answers) : Prop where
  free : (Host.after cfg h).inner.handle = none
  desired : (Host.after cfg h).inner.desired.isSome
  due : ∀ next, (Host.after cfg h).inner.state.nextRestartAt = some next → next ≤ a.now
  noCrashLoop : crashLooped cfg h = false
  noPolicy : policyHeld cfg h = false
  noStop : stopHeld cfg h = false

/-- One worker process at most, and the status names one exactly while a
handle is held. -/
structure OneWorker (w : Host) : Prop where
  one : w.processes.length ≤ 1
  named : w.inner.state.actualActive.isSome ↔ w.inner.handle.isSome

/-- What is promised of a history. -/
structure KeepsHolds (cfg : SupervisorConfig) (h : List Op) : Prop where
  launch : ∀ a h', .tick a :: h' <:+ h → launchesAt cfg h' a = true → MayLaunch cfg h' a
  worker : ∀ h', h' <:+ h → OneWorker (Host.after cfg h')

/-- No tick finds a deployment desired while the policy's `PolicyDisabled`
stands, or after the desired deployment was cleared while a crash loop
stands. -/
def NoneDesired (cfg : SupervisorConfig) (h : List Op) : Prop :=
  ∀ a h', .tick a :: h' <:+ h → (Host.after cfg h').inner.desired.isSome = true →
    policyHeld cfg h' = false ∧ (crashLooped cfg h' && clearedSince cfg h') = false

/-! ## What a tick does -/

/-- What a tick leaves when the policy was asked: the worker is gone and the
phase is the decision's. -/
structure Lost (i : Inner) (t : Ticked) (d : BackoffDecision) : Prop where
  handle : t.inner.handle = none
  stopRequested : t.inner.stopRequested = false
  stopHold : t.inner.stopHold = i.stopHold
  desired : t.inner.desired = i.desired
  actual : t.inner.state.actualActive = none
  decision : t.decision = some d
  crash : d.isCrashLoop = true → t.inner.state.phase = .crashLoop
  disabled : d = .policyDisabled → t.inner.state.phase = .stopped ∧
    t.inner.state.nextRestartAt = none

/-- A tick that keeps its worker. -/
structure Kept (i : Inner) (t : Ticked) : Prop where
  handle : t.inner.handle = i.handle
  stopRequested : t.inner.stopRequested = i.stopRequested
  stopHold : t.inner.stopHold = i.stopHold
  desired : t.inner.desired = i.desired
  actual : i.state.actualActive.isSome → t.inner.state.actualActive.isSome
  decision : t.decision = none
  calls : t.calls.any ProcessCall.isLaunch = false

/-- A tick that finds the worker gone after a stop. -/
structure WasStopped (i : Inner) (t : Ticked) : Prop where
  handle : t.inner.handle = none
  stopRequested : t.inner.stopRequested = false
  stopHold : t.inner.stopHold = i.stopHold
  desired : t.inner.desired = i.desired
  actual : t.inner.state.actualActive = none
  decision : t.decision = none

/-- The call ends the process of the handle, or says that it has ended. -/
def ProcessCall.ends : ProcessCall → Bool
  | .forceTerminate _ _ => true
  | .poll _ (.ok (.exited _)) => true
  | _ => false

namespace Inner

variable {cfg : SupervisorConfig} {i : Inner} {a : Answers}

/-- What `schedule_after_failure` changes: the policy's own state, the
phase and the schedule. -/
theorem lost_schedule {j : Inner} (cls : FailureClass) (now : ℕ) (calls : List ProcessCall)
    (outcome : Except Error TickOutcome) (hh : j.handle = none) (hs : j.stopRequested = false)
    (hd : j.desired = i.desired) (hk : j.stopHold = i.stopHold)
    (ha : j.state.actualActive = none) :
    Lost i ⟨(j.scheduleAfterFailure cls now).1, calls,
      some (j.scheduleAfterFailure cls now).2.1, outcome⟩ (j.scheduleAfterFailure cls now).2.1 := by
  unfold scheduleAfterFailure
  dsimp only
  cases (j.backoff.onFailure now cls).2 with
  | restart at' delay => exact ⟨hh, hs, hk, hd, ha, rfl, nofun, nofun⟩
  | enterCrashLoop reason => exact ⟨hh, hs, hk, hd, ha, rfl, fun _ => rfl, nofun⟩
  | policyDisabled => exact ⟨hh, hs, hk, hd, ha, rfl, nofun, fun _ => ⟨rfl, rfl⟩⟩

/-- A worker found unready is terminated and the policy asked. -/
theorem lost_finalizeUnready {j : Inner} (handle : WorkerHandle) (cls : FailureClass)
    (hs : j.stopRequested = false) (hd : j.desired = i.desired) (hk : j.stopHold = i.stopHold) :
    ∃ d, Lost i (j.finalizeUnready handle a cls) d ∧
      (j.finalizeUnready handle a cls).calls = [.forceTerminate handle a.forceTerminate] :=
  ⟨_, lost_schedule cls a.now _ _ rfl hs hd hk rfl, rfl⟩

theorem kept_or_lost_probe {handle : WorkerHandle} (hs : i.stopRequested = false) :
    Kept i (i.probeReadiness cfg handle a) ∨
      ∃ d, Lost i (i.probeReadiness cfg handle a) d ∧
        (i.probeReadiness cfg handle a).calls = [.forceTerminate handle a.forceTerminate] := by
  unfold probeReadiness
  dsimp only
  -- the phase may move to `running` first, and nothing below reads more of it
  generalize hj : (if i.state.phase = .starting then
    { i with state := { i.state with phase := .running } } else i) = j
  have hfields : j.stopRequested = i.stopRequested ∧ j.desired = i.desired ∧
      j.stopHold = i.stopHold ∧ j.handle = i.handle ∧
      j.state.actualActive = i.state.actualActive := by
    rw [← hj]
    split_ifs <;> exact ⟨rfl, rfl, rfl, rfl, rfl⟩
  obtain ⟨h1, h2, h3, h4, h5⟩ := hfields
  split_ifs with hf hr hd
  · exact .inr (lost_finalizeUnready handle _ (h1.trans hs) h2 h3)
  · refine .inl ⟨h4, h1, h3, h2, fun _ => ?_, rfl, rfl⟩
    show Option.isSome _ = true
    rw [hr.2]
    rfl
  · exact .inr (lost_finalizeUnready handle _ (h1.trans hs) h2 h3)
  · exact .inl ⟨h4, h1, h3, h2, fun h => h5.symm ▸ h, rfl, rfl⟩

theorem kept_or_lost_steady {handle : WorkerHandle} (hs : i.stopRequested = false) :
    Kept i (i.steadyStatePoll handle a) ∨
      ∃ d, Lost i (i.steadyStatePoll handle a) d ∧
        (i.steadyStatePoll handle a).calls = [.forceTerminate handle a.forceTerminate] := by
  unfold steadyStatePoll
  cases a.sample with
  | error err => exact .inl ⟨rfl, rfl, rfl, rfl, id, rfl, rfl⟩
  | ok sample =>
    dsimp only
    split_ifs
    · exact .inr (lost_finalizeUnready handle _ hs rfl rfl)
    · exact .inl ⟨rfl, rfl, rfl, rfl, id, rfl, rfl⟩
    · exact .inl ⟨rfl, rfl, rfl, rfl, id, rfl, rfl⟩
    · exact .inl ⟨rfl, rfl, rfl, rfl, id, rfl, rfl⟩

/-- Driving a stop keeps the handle until the poll finds the worker gone. -/
theorem kept_driveStop {handle : WorkerHandle} (hh : i.handle = some handle) :
    Kept i (i.driveStop cfg a) := by
  unfold driveStop
  rw [hh]
  dsimp only
  cases i.stopStartedAt with
  | none =>
    dsimp only
    cases a.gracefulStop with
    | error err => exact ⟨rfl, rfl, rfl, rfl, id, rfl, rfl⟩
    | ok _ => exact ⟨rfl, rfl, rfl, rfl, id, rfl, rfl⟩
  | some started =>
    dsimp only
    cases i.forceTerminateAt with
    | none => exact ⟨rfl, rfl, rfl, rfl, id, rfl, rfl⟩
    | some deadline =>
      dsimp only
      split_ifs
      · rcases a.forceTerminate with err | ⟨⟩
        · exact ⟨rfl, rfl, rfl, rfl, id, rfl, rfl⟩
        · exact ⟨hh.symm, rfl, rfl, rfl, id, rfl, rfl⟩
      · exact ⟨rfl, rfl, rfl, rfl, id, rfl, rfl⟩

variable (cfg a) in
/-- With a worker held and found running, a tick keeps it or gives it up. -/
theorem drive_held {handle : WorkerHandle} (hh : i.handle = some handle) :
    Kept i (i.drive cfg a) ∨ (i.stopRequested = false ∧
      ∃ d, Lost i (i.drive cfg a) d ∧
        (i.drive cfg a).calls = [.forceTerminate handle a.forceTerminate]) := by
  cases hs : i.stopRequested with
  | true =>
    unfold drive
    rw [if_pos hs]
    exact .inl (kept_driveStop hh)
  | false =>
    have hfree : ¬ (i.handle.isNone = true ∧ i.desired.isSome = true ∧ i.stopHold = false) := by
      rw [hh]
      exact fun h => nomatch h.1
    unfold drive
    rw [if_neg (by rw [hs]; exact Bool.false_ne_true), if_neg hfree, hh]
    dsimp only
    split_ifs
    · exact .inl ⟨rfl, rfl, rfl, rfl, id, rfl, rfl⟩
    · exact (kept_or_lost_probe hs).imp_right fun h => ⟨rfl, h⟩
    · exact (kept_or_lost_steady hs).imp_right fun h => ⟨rfl, h⟩
    · exact .inl ⟨rfl, rfl, rfl, rfl, id, rfl, rfl⟩

variable (cfg a) in
/-- With a worker held, a tick launches nothing: it keeps the worker, finds
it gone after a stop, or gives it up and asks the policy. -/
theorem tick_held {handle : WorkerHandle} (hh : i.handle = some handle) :
    (i.tick cfg a).calls.any ProcessCall.isLaunch = false ∧
      (Kept i (i.tick cfg a) ∨
        (i.tick cfg a).calls.any ProcessCall.ends = true ∧
          (WasStopped i (i.tick cfg a) ∨ i.stopRequested = false ∧ ∃ d, Lost i (i.tick cfg a) d)) := by
  unfold tick
  rw [hh]
  dsimp only
  cases hp : a.poll with
  | error err => exact ⟨rfl, .inl ⟨hh.symm ▸ rfl, rfl, rfl, rfl, id, rfl, rfl⟩⟩
  | ok outcome =>
    cases outcome with
    | running =>
      dsimp only
      rcases drive_held cfg a hh with hk | ⟨hs, d, hl, hc⟩
      · exact ⟨by simpa [ProcessCall.isLaunch] using hk.calls,
          .inl { hk with calls := by simpa [ProcessCall.isLaunch] using hk.calls }⟩
      · refine ⟨by rw [hc]; rfl, .inr ⟨by rw [hc]; rfl, .inr ⟨hs, d, ?_⟩⟩⟩
        exact { hl with }
    | exited status =>
      dsimp only
      unfold onWorkerExit
      dsimp only
      cases hs : i.stopRequested with
      | true =>
        rw [if_pos (show i.dropHandle.stopRequested = true from hs)]
        exact ⟨rfl, .inr ⟨rfl, .inl ⟨rfl, rfl, rfl, rfl, rfl, rfl⟩⟩⟩
      | false =>
        rw [if_neg (by rw [show i.dropHandle.stopRequested = false from hs]; exact Bool.false_ne_true)]
        exact ⟨rfl, .inr ⟨rfl, .inr ⟨rfl, _, lost_schedule _ a.now _ _ rfl hs rfl rfl rfl⟩⟩⟩

/-- A launch is due. -/
def LaunchDue (i : Inner) (a : Answers) : Prop :=
  i.state.phase.isTerminal = false ∧ i.desired.isSome = true ∧ i.stopHold = false ∧
    ∀ next, i.state.nextRestartAt = some next → next ≤ a.now

variable (cfg a) in
/-- Without a worker, a tick launches exactly when one is due, and does
nothing else. -/
theorem tick_free (hh : i.handle = none) (hs : i.stopRequested = false) :
    (LaunchDue i a ∧ i.tick cfg a = i.launchWorker a) ∨
      (¬ LaunchDue i a ∧ i.tick cfg a = { inner := i }) := by
  have htick : i.tick cfg a = i.drive cfg a := by
    unfold tick
    rw [hh]
  rw [htick]
  unfold drive LaunchDue
  rw [if_neg (by rw [hs]; exact Bool.false_ne_true), hh]
  cases ht : i.state.phase.isTerminal with
  | true => exact .inr ⟨fun h => (nomatch h.1), rfl⟩
  | false =>
    by_cases hg : i.desired.isSome = true ∧ i.stopHold = false
    · rw [if_neg Bool.false_ne_true, if_pos ⟨rfl, hg⟩]
      cases hn : i.state.nextRestartAt with
      | none => exact .inl ⟨⟨rfl, hg.1, hg.2, nofun⟩, rfl⟩
      | some next =>
        dsimp only
        by_cases hlt : a.now < next
        · rw [if_pos hlt]
          exact .inr ⟨fun h => by have := h.2.2.2 next rfl; omega, rfl⟩
        · rw [if_neg hlt]
          refine .inl ⟨⟨rfl, hg.1, hg.2, fun n hn => ?_⟩, rfl⟩
          cases hn
          omega
    · rw [if_neg Bool.false_ne_true, if_neg fun h => hg h.2]
      exact .inr ⟨fun h => hg ⟨h.2.1, h.2.2.1⟩, rfl⟩

/-- A worker started. -/
structure Started (i : Inner) (t : Ticked) : Prop where
  handle : t.inner.handle.isSome
  stopRequested : t.inner.stopRequested = i.stopRequested
  stopHold : t.inner.stopHold = i.stopHold
  actual : t.inner.state.actualActive.isSome
  decision : t.decision = none

variable (a) in
theorem launchWorker_cases (hh : i.handle = none) (hs : i.stopRequested = false)
    (ha : i.state.actualActive = none) (hd : i.desired.isSome = true) :
    ∃ id device, (i.launchWorker a).calls = [.launch id device a.launch] ∧
      ((∃ handle, a.launch = .ok handle ∧ Started i (i.launchWorker a)) ∨
        ∃ err d, a.launch = .error err ∧ Lost i (i.launchWorker a) d) := by
  obtain ⟨desired, hdes⟩ := Option.isSome_iff_exists.1 hd
  unfold launchWorker
  rw [hdes]
  dsimp only
  cases a.launch with
  | ok handle => exact ⟨_, _, rfl, .inl ⟨handle, rfl, rfl, rfl, rfl, rfl, rfl⟩⟩
  | error err =>
    exact ⟨_, _, rfl, .inr ⟨err, _, rfl, lost_schedule _ a.now _ _ hh hs rfl rfl ha⟩⟩

end Inner

/-! ## The processes -/

namespace Host

variable {cfg : SupervisorConfig} {w : Host}

/-- Calls that launch nothing only end processes. -/
theorem called_of_no_launch : ∀ (calls : List ProcessCall) (w : Host),
    calls.any ProcessCall.isLaunch = false →
      (calls.foldl called w).inner = w.inner ∧ (calls.foldl called w).current = w.current ∧
      (calls.foldl called w).processes.Sublist w.processes ∧
      (calls.any ProcessCall.ends = true →
        ∀ n ∈ (calls.foldl called w).processes, some n ≠ w.current) := by
  intro calls
  induction calls with
  | nil => exact fun w _ => ⟨rfl, rfl, List.Sublist.refl _, nofun⟩
  | cons c calls ih =>
    intro w hl
    rw [List.any_cons, Bool.or_eq_false_iff] at hl
    obtain ⟨hi, hc, hs, he⟩ := ih (w.called c) hl.2
    have hcalled : (w.called c).inner = w.inner ∧ (w.called c).current = w.current ∧
        (w.called c).processes.Sublist w.processes ∧
        (c.ends = true → ∀ n ∈ (w.called c).processes, some n ≠ w.current) := by
      have hended : w.ended.inner = w.inner ∧ w.ended.current = w.current ∧
          w.ended.processes.Sublist w.processes ∧
          (c.ends = true → ∀ n ∈ w.ended.processes, some n ≠ w.current) := by
        refine ⟨rfl, rfl, List.filter_sublist, fun _ n hn => ?_⟩
        simpa using (List.mem_filter.1 hn).2
      have hsame : c.ends = false → w.inner = w.inner ∧ w.current = w.current ∧
          w.processes.Sublist w.processes ∧
          (c.ends = true → ∀ n ∈ w.processes, some n ≠ w.current) := by
        intro hc
        refine ⟨rfl, rfl, List.Sublist.refl _, fun h => ?_⟩
        cases hc.symm.trans h
      cases c with
      | launch id device answer => cases hl.1
      | forceTerminate handle answer => exact hended
      | gracefulStop handle answer => exact hsame rfl
      | poll handle answer =>
        rcases answer with err | outcome
        · exact hsame rfl
        · cases outcome with
          | running => exact hsame rfl
          | exited status => exact hended
    obtain ⟨hi', hc', hs', he'⟩ := hcalled
    rw [List.foldl_cons]
    refine ⟨hi.trans hi', hc.trans hc', hs.trans hs', fun hends n hn => ?_⟩
    rw [List.any_cons, Bool.or_eq_true] at hends
    rcases hends with hends | hends
    · exact he' hends n (hs.subset hn)
    · rw [← hc']
      exact he hends n hn

/-- What every history keeps: a stop is asked of a worker, a hold outlives
the stop only when the worker is gone, and the only process is the
handle's. -/
structure Sane (w : Host) : Prop where
  stop : w.inner.stopRequested = true → w.inner.handle.isSome = true
  hold : w.inner.stopHold = true → w.inner.handle.isSome = true → w.inner.stopRequested = true
  gone : w.inner.handle = none → w.processes = []
  own : ∀ n ∈ w.processes, w.current = some n
  one : w.processes.length ≤ 1
  named : w.inner.state.actualActive.isSome = w.inner.handle.isSome

/-- Fewer processes are as sane. -/
theorem Sane.fewer {ps : List ℕ} (h : Sane w) (hs : ps.Sublist w.processes) :
    Sane { w with processes := ps } where
  stop := h.stop
  hold := h.hold
  gone := fun hn => List.eq_nil_of_subset_nil (h.gone hn ▸ hs.subset)
  own := fun n hn => h.own n (hs.subset hn)
  one := Nat.le_trans hs.length_le h.one
  named := h.named

/-- What `set_desired_active` changes. -/
structure Desires (i : Inner) (d : Option DesiredWorker) (j : Inner) : Prop where
  handle : j.handle = i.handle
  actual : j.state.actualActive = i.state.actualActive
  desired : j.desired = d
  stop : j.stopRequested = true → i.stopRequested = true ∨ i.handle.isSome = true
  hold : j.stopHold = true → i.stopHold = true ∧ i.handle = none
  cleared : d = none → j.state.phase = .noActiveDeployment ∧ j.state.nextRestartAt = none
  wanted : d ≠ none → j.state.nextRestartAt = i.state.nextRestartAt ∧
    j.state.phase = if i.state.phase = .noActiveDeployment then .starting else i.state.phase

theorem desires_setDesiredActive (i : Inner) (d : Option DesiredWorker) :
    Desires i d (i.setDesiredActive d) := by
  cases d with
  | none =>
    cases hh : i.handle with
    | none => constructor <;> simp [Inner.setDesiredActive, SupervisionState.setDesiredActive, hh]
    | some handle =>
      constructor <;> simp [Inner.setDesiredActive, SupervisionState.setDesiredActive, hh]
  | some d =>
    unfold Inner.setDesiredActive SupervisionState.setDesiredActive
    by_cases hs : i.handle.isSome = true ∧
        i.handle.map (fun h => (h.deploymentId, h.deviceIndex)) ≠
          (some d).map fun d => (d.deploymentId, d.deviceIndex)
    · dsimp only
      rw [if_pos hs]
      by_cases hp : i.state.phase = .noActiveDeployment
      · exact ⟨by simp, by simp [hp], rfl, fun _ => .inr hs.1, nofun, nofun, by simp [hp]⟩
      · exact ⟨by simp, by simp [hp], rfl, fun _ => .inr hs.1, nofun, nofun, by simp [hp]⟩
    · dsimp only
      rw [if_neg hs]
      by_cases hp : i.state.phase = .noActiveDeployment
      · exact ⟨by simp, by simp [hp], rfl, .inl, nofun, nofun, by simp [hp]⟩
      · exact ⟨by simp, by simp [hp], rfl, .inl, nofun, nofun, by simp [hp]⟩

theorem Sane.setDesired (h : Sane w) (d : Option DesiredWorker) :
    Sane { w with inner := w.inner.setDesiredActive d } := by
  have hd := desires_setDesiredActive w.inner d
  refine ⟨fun hs => ?_, fun hk hs => ?_, fun hn => h.gone (hd.handle.symm.trans hn), h.own, h.one, ?_⟩
  · show Option.isSome (Inner.handle _) = true
    rw [hd.handle]
    exact (hd.stop hs).elim h.stop id
  · have hnone := (hd.hold hk).2
    rw [show Inner.handle _ = _ from hd.handle, hnone] at hs
    cases hs
  · show Option.isSome (SupervisionState.actualActive _) = Option.isSome (Inner.handle _)
    rw [hd.handle, hd.actual]
    exact h.named

theorem Sane.requestStop (h : Sane w) : Sane { w with inner := w.inner.requestStop } := by
  unfold Inner.requestStop
  split_ifs with hs
  · exact ⟨fun _ => hs, fun _ _ => rfl, h.gone, h.own, h.one, h.named⟩
  · exact h

theorem Sane.recovered (h : Sane w) (now : ℕ) :
    Sane { w with inner := w.inner.recoverAfterOperatorAction now } :=
  ⟨h.stop, nofun, h.gone, h.own, h.one, h.named⟩

theorem Sane.free_stop (h : Sane w) (hh : w.inner.handle = none) :
    w.inner.stopRequested = false := by
  cases hs : w.inner.stopRequested with
  | false => rfl
  | true =>
    have := h.stop hs
    rw [hh] at this
    cases this

theorem Sane.actual_none (h : Sane w) (hh : w.inner.handle = none) :
    w.inner.state.actualActive = none := by
  have := h.named
  rw [hh] at this
  exact Option.not_isSome_iff_eq_none.1 (by rw [this]; exact Bool.false_ne_true)

theorem Sane.of_gone (hh : w.inner.handle = none) (hs : w.inner.stopRequested = false)
    (ha : w.inner.state.actualActive = none) (hp : w.processes = []) : Sane w where
  stop := fun h => by cases hs.symm.trans h
  hold := fun _ h => by rw [hh] at h; cases h
  gone := fun _ => hp
  own := by rw [hp]; exact nofun
  one := by rw [hp]; exact Nat.zero_le _
  named := by rw [hh, ha]; rfl

/-- No process runs without its handle. -/
theorem eq_nil_of_own {ps : List ℕ} {c : Option ℕ} (hown : ∀ n ∈ ps, c = some n)
    (hno : ∀ n ∈ ps, some n ≠ c) : ps = [] :=
  List.eq_nil_iff_forall_not_mem.2 fun n hn => hno n hn (hown n hn).symm

/-- The step lemma of a tick. -/
theorem Sane.tick (h : Sane w) (a : Answers) : Sane (w.op cfg (.tick a)) := by
  unfold op
  dsimp only
  cases hh : w.inner.handle with
  | some handle =>
    obtain ⟨hl, hcases⟩ := Inner.tick_held cfg a hh
    obtain ⟨hi, hc, hs, he⟩ := called_of_no_launch _
      { w with inner := (w.inner.tick cfg a).inner } hl
    have hown : ∀ n ∈ (List.foldl called { w with inner := (w.inner.tick cfg a).inner }
        (w.inner.tick cfg a).calls).processes, w.current = some n := fun n hn =>
      h.own n (hs.subset hn)
    have hone := Nat.le_trans hs.length_le h.one
    rcases hcases with hk | ⟨hends, hst | ⟨hsr, d, hlost⟩⟩
    · refine ⟨?_, ?_, ?_, ?_, hone, ?_⟩
      · rw [hi]
        intro hstop
        show Option.isSome (Inner.handle _) = true
        rw [hk.handle, hh]
        rfl
      · rw [hi]
        intro hhold _
        show Inner.stopRequested _ = true
        rw [hk.stopRequested]
        exact h.hold (hk.stopHold ▸ hhold) (by rw [hh]; rfl)
      · rw [hi]
        intro hn
        rw [show Inner.handle _ = _ from hk.handle, hh] at hn
        cases hn
      · rw [hc]
        exact hown
      · rw [hi]
        show Option.isSome (SupervisionState.actualActive _) = Option.isSome (Inner.handle _)
        rw [hk.handle, hh]
        exact hk.actual (by rw [h.named, hh]; rfl)
    · refine Sane.of_gone ?_ ?_ ?_ (eq_nil_of_own hown (he hends))
      · rw [hi]
        exact hst.handle
      · rw [hi]
        exact hst.stopRequested
      · rw [hi]
        exact hst.actual
    · refine Sane.of_gone ?_ ?_ ?_ (eq_nil_of_own hown (he hends))
      · rw [hi]
        exact hlost.handle
      · rw [hi]
        exact hlost.stopRequested
      · rw [hi]
        exact hlost.actual
  | none =>
    have hsr := h.free_stop hh
    rcases Inner.tick_free cfg a hh hsr with ⟨hdue, ht⟩ | ⟨-, ht⟩
    · obtain ⟨id, device, hcalls, ⟨handle, hok, hst⟩ | ⟨err, d, herr, hlost⟩⟩ :=
        Inner.launchWorker_cases a hh hsr (h.actual_none hh) hdue.2.1
      · rw [ht, hcalls, hok]
        refine ⟨fun _ => hst.handle, fun hhold _ => ?_, fun hn => ?_, fun n hn => ?_, ?_, ?_⟩
        · have := hst.stopHold.symm.trans hhold
          rw [hdue.2.2.1] at this
          cases this
        · have hn' : (w.inner.launchWorker a).inner.handle = none := hn
          have := hst.handle
          rw [hn'] at this
          cases this
        · have hn' : n ∈ w.processes ++ [w.launched] := hn
          rw [h.gone hh, List.nil_append, List.mem_singleton] at hn'
          rw [hn']
          rfl
        · show (w.processes ++ [w.launched]).length ≤ 1
          rw [h.gone hh]
          exact Nat.le_refl _
        · exact hst.actual.trans hst.handle.symm
      · rw [ht, hcalls, herr]
        exact Sane.of_gone hlost.handle hlost.stopRequested hlost.actual (h.gone hh)
    · rw [ht]
      exact h

/-- The run lemma. -/
theorem sane_after (cfg : SupervisorConfig) (h : List Op) : Sane (after cfg h) := by
  induction h with
  | nil => exact ⟨nofun, nofun, fun _ => rfl, nofun, Nat.zero_le _, rfl⟩
  | cons o h ih =>
    cases o with
    | setDesiredActive d => exact ih.setDesired d
    | requestStop => exact ih.requestStop
    | recoverAfterOperatorAction now => exact ih.recovered now
    | tick a => exact ih.tick a
    | processEnds n => exact ih.fewer List.filter_sublist

end Host

/-! ## The holds -/

/-- The supervisor is down and nothing but its phase keeps it there. -/
structure Down (i : Inner) : Prop where
  handle : i.handle = none
  hold : i.stopHold = false

/-- What the history's holds say of the supervisor's state. -/
structure Holding (cfg : SupervisorConfig) (h : List Op) (w : Host) : Prop where
  stop : stopHeld cfg h = true → w.inner.stopHold = true
  policy : policyHeld cfg h = true →
    Down w.inner ∧ w.inner.state.phase = .stopped ∧ w.inner.state.nextRestartAt = none
  crash : crashLooped cfg h = true → Down w.inner ∧ (clearedSince cfg h = false →
    w.inner.state.phase = .crashLoop)
  cleared : crashLooped cfg h = true → clearedSince cfg h = true →
    w.inner.state.phase.isTerminal = false ∧ w.inner.state.nextRestartAt = none

section

variable {cfg : SupervisorConfig} {h : List Op}

theorem Holding.setDesired (hg : Holding cfg h (Host.after cfg h)) (d : Option DesiredWorker) :
    Holding cfg (.setDesiredActive d :: h) (Host.after cfg (.setDesiredActive d :: h)) := by
  have hd : Host.Desires (Host.after cfg h).inner d
      (Host.after cfg (.setDesiredActive d :: h)).inner :=
    Host.desires_setDesiredActive (Host.after cfg h).inner d
  have hdown : crashLooped cfg h = true → Down (Host.after cfg (.setDesiredActive d :: h)).inner := by
    intro hc
    refine ⟨hd.handle.trans (hg.crash hc).1.handle, ?_⟩
    cases hk : (Host.after cfg (.setDesiredActive d :: h)).inner.stopHold with
    | false => rfl
    | true => exact absurd ((hg.crash hc).1.hold.symm.trans (hd.hold hk).1) Bool.false_ne_true
  rcases d with _ | d
  · refine ⟨nofun, nofun, fun hc => ⟨hdown hc, nofun⟩, fun hc _ => ?_⟩
    obtain ⟨hp, hn⟩ := hd.cleared rfl
    refine ⟨?_, hn⟩
    rw [hp]
    rfl
  · obtain ⟨hn, hp⟩ := hd.wanted (by simp)
    refine ⟨nofun, nofun, fun hc => ⟨hdown hc, fun hcl => ?_⟩, fun hc hcl => ?_⟩
    · have hphase := (hg.crash hc).2 hcl
      rw [hp, hphase]
      rfl
    · obtain ⟨ht, hn'⟩ := hg.cleared hc hcl
      refine ⟨?_, hn.trans hn'⟩
      rw [hp]
      split_ifs
      · rfl
      · exact ht

theorem Holding.requestStop (hg : Holding cfg h (Host.after cfg h)) :
    Holding cfg (.requestStop :: h) (Host.after cfg (.requestStop :: h)) := by
  have hfree : (Host.after cfg h).inner.handle = none →
      (Host.after cfg (.requestStop :: h)).inner = (Host.after cfg h).inner := by
    intro hn
    show Inner.requestStop _ = _
    unfold Inner.requestStop
    rw [hn]
    rfl
  refine ⟨fun hs => ?_, fun hp => ?_, fun hc => ?_, fun hc hcl => ?_⟩
  · show (Inner.requestStop _).stopHold = true
    unfold Inner.requestStop
    split_ifs with hsome
    · rfl
    · have hs' : ((Host.after cfg h).inner.handle.isSome || stopHeld cfg h) = true := hs
      rw [Bool.or_eq_true] at hs'
      exact hg.stop (hs'.resolve_left hsome)
  · obtain ⟨hd, hph, hn⟩ := hg.policy hp
    have hi := hfree hd.handle
    exact ⟨⟨hi ▸ hd.handle, hi ▸ hd.hold⟩, hi ▸ hph, hi ▸ hn⟩
  · obtain ⟨hd, hph⟩ := hg.crash hc
    have hi := hfree hd.handle
    exact ⟨⟨hi ▸ hd.handle, hi ▸ hd.hold⟩, fun hcl => hi ▸ hph hcl⟩
  · have hi := hfree (hg.crash hc).1.handle
    exact hi ▸ hg.cleared hc hcl

theorem called_inner (calls : List ProcessCall) (w : Host) :
    (calls.foldl Host.called w).inner = w.inner := by
  induction calls generalizing w with
  | nil => rfl
  | cons c calls ih =>
    rw [List.foldl_cons, ih]
    cases c with
    | launch id device answer => cases answer <;> rfl
    | forceTerminate handle answer => rfl
    | gracefulStop handle answer => rfl
    | poll handle answer =>
      rcases answer with err | outcome
      · rfl
      · cases outcome <;> rfl

theorem after_tick_inner (cfg : SupervisorConfig) (h : List Op) (a : Answers) :
    (Host.after cfg (.tick a :: h)).inner = ((Host.after cfg h).inner.tick cfg a).inner :=
  called_inner _ _

/-- A tick the policy is not asked in leaves the holds as they are. -/
theorem holds_of_no_decision (cfg : SupervisorConfig) (h : List Op) (a : Answers)
    (hd : ((Host.after cfg h).inner.tick cfg a).decision = none) :
    crashLooped cfg (.tick a :: h) = crashLooped cfg h ∧
      policyHeld cfg (.tick a :: h) = policyHeld cfg h ∧
      clearedSince cfg (.tick a :: h) = clearedSince cfg h := by
  have hdec : decisionAt cfg h (.tick a) = none := hd
  have hcr : crashesAt cfg h (.tick a) = false := by
    unfold crashesAt
    rw [hdec]
    rfl
  refine ⟨?_, ?_, ?_⟩
  · rw [crashLooped, hcr, Bool.false_or]
    exact nofun
  · rw [policyHeld, hdec]
    · simp
    · exact nofun
    · exact nofun
  · rw [clearedSince, hcr]
    · rfl
    · exact nofun
    · exact nofun

/-- A worker the supervisor holds, or starts, has no hold of the policy
against it. -/
theorem Holding.quiet {a : Answers} (hg : Holding cfg h (Host.after cfg h))
    (hk : ((Host.after cfg h).inner.tick cfg a).inner.stopHold = (Host.after cfg h).inner.stopHold)
    (hd : ((Host.after cfg h).inner.tick cfg a).decision = none)
    (hc : crashLooped cfg h = false) (hp : policyHeld cfg h = false) :
    Holding cfg (.tick a :: h) (Host.after cfg (.tick a :: h)) := by
  obtain ⟨h1, h2, -⟩ := holds_of_no_decision cfg h a hd
  refine ⟨fun hs => ?_, fun hpol => ?_, fun hcr => ?_, fun hcr => ?_⟩
  · rw [after_tick_inner, hk]
    exact hg.stop hs
  · cases (hp.symm.trans h2.symm).trans hpol
  · cases (hc.symm.trans h1.symm).trans hcr
  · cases (hc.symm.trans h1.symm).trans hcr

/-- The policy's answer stands in the phase it leaves. -/
theorem Holding.lost {a : Answers} {d : BackoffDecision} (hg : Holding cfg h (Host.after cfg h))
    (hl : Lost (Host.after cfg h).inner ((Host.after cfg h).inner.tick cfg a) d)
    (hh : (Host.after cfg h).inner.stopHold = false)
    (hc : crashLooped cfg h = false) (hp : policyHeld cfg h = false) :
    Holding cfg (.tick a :: h) (Host.after cfg (.tick a :: h)) := by
  have hdec : decisionAt cfg h (.tick a) = some d := hl.decision
  have hcr : crashesAt cfg h (.tick a) = d.isCrashLoop := by
    unfold crashesAt
    rw [hdec]
    rfl
  have hdown : Down (Host.after cfg (.tick a :: h)).inner := by
    constructor
    · rw [after_tick_inner]
      exact hl.handle
    · rw [after_tick_inner, hl.stopHold]
      exact hh
  have hcrash : crashLooped cfg (.tick a :: h) = true → d.isCrashLoop = true := by
    intro h1
    rw [crashLooped, hcr, hc, Bool.or_false] at h1
    · exact h1
    · exact nofun
  refine ⟨fun hs => ?_, fun hpol => ?_, fun h1 => ⟨hdown, fun _ => ?_⟩, fun h1 h2 => ?_⟩
  · rw [after_tick_inner, hl.stopHold]
    exact hg.stop hs
  · rw [policyHeld, hdec, hp, Bool.or_false] at hpol
    · obtain ⟨hph, hn⟩ := hl.disabled (by simpa using hpol)
      refine ⟨hdown, ?_, ?_⟩
      · rw [after_tick_inner]
        exact hph
      · rw [after_tick_inner]
        exact hn
    · exact nofun
    · exact nofun
  · rw [after_tick_inner]
    exact hl.crash (hcrash h1)
  · rw [clearedSince, hcr, hcrash h1] at h2
    · cases h2
    · exact nofun
    · exact nofun

/-- Nothing due, nothing changed. -/
theorem Holding.idle {a : Answers} (hg : Holding cfg h (Host.after cfg h))
    (ht : (Host.after cfg h).inner.tick cfg a = { inner := (Host.after cfg h).inner }) :
    Holding cfg (.tick a :: h) (Host.after cfg (.tick a :: h)) := by
  obtain ⟨h1, h2, h3⟩ := holds_of_no_decision cfg h a (by rw [ht])
  have hi : (Host.after cfg (.tick a :: h)).inner = (Host.after cfg h).inner := by
    rw [after_tick_inner, ht]
  refine ⟨fun hs => hi ▸ hg.stop hs, fun hp => ?_, fun hc => ?_, fun hc hcl => ?_⟩
  · obtain ⟨hd, hph, hn⟩ := hg.policy (h2 ▸ hp)
    exact ⟨⟨hi ▸ hd.handle, hi ▸ hd.hold⟩, hi ▸ hph, hi ▸ hn⟩
  · obtain ⟨hd, hph⟩ := hg.crash (h1 ▸ hc)
    exact ⟨⟨hi ▸ hd.handle, hi ▸ hd.hold⟩, fun hcl => hi ▸ hph (h3 ▸ hcl)⟩
  · exact hi ▸ hg.cleared (h1 ▸ hc) (h3 ▸ hcl)

/-- A tick with a deployment desired finds no hold of the policy that the
phase does not keep. -/
def Escapes (cfg : SupervisorConfig) (h : List Op) : Prop :=
  (Host.after cfg h).inner.desired.isSome = true →
    policyHeld cfg h = false ∧ (crashLooped cfg h && clearedSince cfg h) = false

/-- Where a launch is due no hold stands. -/
theorem Holding.free (hg : Holding cfg h (Host.after cfg h)) (he : Escapes cfg h) {a : Answers}
    (hdue : (Host.after cfg h).inner.LaunchDue a) :
    crashLooped cfg h = false ∧ policyHeld cfg h = false := by
  obtain ⟨hp, hcc⟩ := he hdue.2.1
  refine ⟨?_, hp⟩
  cases hc : crashLooped cfg h with
  | false => rfl
  | true =>
    rw [hc, Bool.true_and] at hcc
    have hphase := (hg.crash hc).2 hcc
    have hterm := hdue.1
    rw [hphase] at hterm
    cases hterm

/-- The step lemma of a tick. -/
theorem Holding.tick (hg : Holding cfg h (Host.after cfg h)) (he : Escapes cfg h) (a : Answers) :
    Holding cfg (.tick a :: h) (Host.after cfg (.tick a :: h)) := by
  have hsane := Host.sane_after cfg h
  cases hh : (Host.after cfg h).inner.handle with
  | some handle =>
    have hc : crashLooped cfg h = false := by
      cases hc : crashLooped cfg h with
      | false => rfl
      | true => cases hh.symm.trans (hg.crash hc).1.handle
    have hp : policyHeld cfg h = false := by
      cases hp : policyHeld cfg h with
      | false => rfl
      | true => cases hh.symm.trans (hg.policy hp).1.handle
    obtain ⟨-, hk | ⟨-, hst | ⟨hsr, d, hlost⟩⟩⟩ := Inner.tick_held cfg a hh
    · exact hg.quiet hk.stopHold hk.decision hc hp
    · exact hg.quiet hst.stopHold hst.decision hc hp
    · refine hg.lost hlost ?_ hc hp
      cases hhold : (Host.after cfg h).inner.stopHold with
      | false => rfl
      | true => cases hsr.symm.trans (hsane.hold hhold (by rw [hh]; rfl))
  | none =>
    have hsr := hsane.free_stop hh
    rcases Inner.tick_free cfg a hh hsr with ⟨hdue, ht⟩ | ⟨-, ht⟩
    · obtain ⟨hc, hp⟩ := hg.free he hdue
      obtain ⟨_, _, -, ⟨_, -, hst⟩ | ⟨_, d, -, hlost⟩⟩ :=
        Inner.launchWorker_cases a hh hsr (hsane.actual_none hh) hdue.2.1
      · rw [← ht] at hst
        exact hg.quiet hst.stopHold hst.decision hc hp
      · rw [← ht] at hlost
        exact hg.lost hlost hdue.2.2.1 hc hp
    · exact hg.idle ht

/-- The run lemma. -/
theorem holding_after (hn : NoneDesired cfg h) : Holding cfg h (Host.after cfg h) := by
  induction h with
  | nil => exact ⟨nofun, nofun, nofun, nofun⟩
  | cons o h ih =>
    have hg := ih fun a h' hs => hn a h' (hs.trans (List.suffix_cons o h))
    cases o with
    | setDesiredActive d => exact hg.setDesired d
    | requestStop => exact hg.requestStop
    | recoverAfterOperatorAction now => exact ⟨nofun, nofun, nofun, nofun⟩
    | tick a => exact hg.tick (hn a h (List.suffix_refl _)) a
    | processEnds n => exact ⟨hg.stop, hg.policy, hg.crash, hg.cleared⟩

/-- A tick launches only without a worker, and only what is due. -/
theorem due_of_launches {a : Answers} (hl : launchesAt cfg h a = true) :
    (Host.after cfg h).inner.handle = none ∧ (Host.after cfg h).inner.LaunchDue a := by
  have hsane := Host.sane_after cfg h
  unfold launchesAt at hl
  cases hh : (Host.after cfg h).inner.handle with
  | some handle => cases (Inner.tick_held cfg a hh).1.symm.trans hl
  | none =>
    rcases Inner.tick_free cfg a hh (hsane.free_stop hh) with ⟨hdue, -⟩ | ⟨-, ht⟩
    · exact ⟨rfl, hdue⟩
    · rw [ht] at hl
      cases hl

theorem mayLaunch (hg : Holding cfg h (Host.after cfg h)) (he : Escapes cfg h) {a : Answers}
    (hl : launchesAt cfg h a = true) : MayLaunch cfg h a := by
  obtain ⟨hh, hdue⟩ := due_of_launches hl
  obtain ⟨hc, hp⟩ := hg.free he hdue
  refine ⟨hh, hdue.2.1, hdue.2.2.2, hc, hp, ?_⟩
  cases hs : stopHeld cfg h with
  | false => rfl
  | true => cases hdue.2.2.1.symm.trans (hg.stop hs)

/-- A supervisor that is down, outside the terminal phases and with nothing
scheduled launches at the next tick. -/
theorem launches_of_down {a : Answers} (hd : Down (Host.after cfg h).inner)
    (ht : (Host.after cfg h).inner.state.phase.isTerminal = false)
    (hn : (Host.after cfg h).inner.state.nextRestartAt = none)
    (hdes : (Host.after cfg h).inner.desired.isSome = true) : launchesAt cfg h a = true := by
  have hsane := Host.sane_after cfg h
  have hdue : (Host.after cfg h).inner.LaunchDue a := by
    refine ⟨ht, hdes, hd.hold, fun next hnext => ?_⟩
    cases hn.symm.trans hnext
  obtain ⟨_, _, hcalls, -⟩ := Inner.launchWorker_cases a hd.handle
    (hsane.free_stop hd.handle) (hsane.actual_none hd.handle) hdes
  unfold launchesAt
  rcases Inner.tick_free cfg a hd.handle (hsane.free_stop hd.handle) with
    ⟨-, htick⟩ | ⟨hno, -⟩
  · rw [htick, hcalls]
    rfl
  · exact absurd hdue hno

/-- A hold that the phase does not keep is broken by the next tick. -/
theorem escapes_of_mayLaunch (hg : Holding cfg h (Host.after cfg h)) {a : Answers}
    (hl : launchesAt cfg h a = true → MayLaunch cfg h a) : Escapes cfg h := by
  intro hdes
  constructor
  · cases hp : policyHeld cfg h with
    | false => rfl
    | true =>
      obtain ⟨hd, hph, hn⟩ := hg.policy hp
      have hmay := hl (launches_of_down hd (by rw [hph]; rfl) hn hdes)
      exact hp.symm.trans hmay.noPolicy
  · cases hc : crashLooped cfg h with
    | false => rfl
    | true =>
      cases hcl : clearedSince cfg h with
      | false => rfl
      | true =>
        obtain ⟨ht, hn⟩ := hg.cleared hc hcl
        have hmay := hl (launches_of_down (hg.crash hc).1 ht hn hdes)
        exact hc.symm.trans hmay.noCrashLoop

theorem noneDesired_of_launch (hl : ∀ a h', .tick a :: h' <:+ h → launchesAt cfg h' a = true →
    MayLaunch cfg h' a) : NoneDesired cfg h := by
  induction h with
  | nil =>
    intro a h' hs
    cases List.suffix_nil.1 hs
  | cons o h ih =>
    have hn := ih fun a h' hs => hl a h' (hs.trans (List.suffix_cons o h))
    intro a h' hs
    rcases List.suffix_cons_iff.1 hs with he | hs
    · cases he
      exact escapes_of_mayLaunch (holding_after hn) (hl a h (List.suffix_refl _))
    · exact hn a h' hs

end

/-- **When the holds keep.** Along any history, every launch is one the
holds allow, at most one worker process runs, and the status names a worker
exactly while a handle is held, if and only if no tick finds a deployment
desired while `PolicyDisabled` stands, or after the desired deployment was
cleared under a crash loop. -/
theorem keepsHolds_iff (cfg : SupervisorConfig) (h : List Op) :
    KeepsHolds cfg h ↔ NoneDesired cfg h := by
  constructor
  · intro hk
    exact noneDesired_of_launch hk.launch
  · intro hn
    refine ⟨fun a h' hs hl => ?_, fun h' _ => ?_⟩
    · have hsub : NoneDesired cfg h' := fun a₀ h₀ hs₀ =>
        hn a₀ h₀ (hs₀.trans ((List.suffix_cons _ _).trans hs))
      exact mayLaunch (holding_after hsub) (hn a h' hs) hl
    · have hsane := Host.sane_after cfg h'
      exact ⟨hsane.one, by rw [hsane.named]⟩

/-- A worker launched for `d` at 0 that exits by 1 s. -/
def launchedAndGone : List Op :=
  [.tick { now := 1000000000, poll := .ok (.exited { code := some 1 }), launch := .ok handle },
    .tick { now := 0, launch := .ok handle },
    .setDesiredActive (some ⟨"d", "mock", none⟩)]
  where handle : WorkerHandle := ⟨"d", none, 1, 0, none, ""⟩

/-- The second launch of the same deployment, at 2 s. -/
def relaunch : Answers :=
  { now := 2000000000, launch := .ok ⟨"d", none, 2, 2000000000, none, ""⟩ }

/-- Under a disabled policy the tick after the exit launches again; under a
threshold of one failure, the tick after the deployment was cleared and
desired again does. -/
theorem holds_broken :
    ¬ KeepsHolds { restartPolicy := { kind := .disabled } } (.tick relaunch :: launchedAndGone) ∧
    ¬ KeepsHolds { restartPolicy := { backoff := { threshold := 1 } } }
      (.tick relaunch :: .setDesiredActive (some ⟨"d", "mock", none⟩) ::
        .setDesiredActive none :: launchedAndGone) := by
  constructor
  · intro hk
    have hmay := hk.launch relaunch _ (List.suffix_refl _) (by decide +kernel)
    have hheld : policyHeld { restartPolicy := { kind := .disabled } } launchedAndGone = true := by
      decide +kernel
    exact Bool.false_ne_true (hmay.noPolicy.symm.trans hheld)
  · intro hk
    have hmay := hk.launch relaunch _ (List.suffix_refl _) (by decide +kernel)
    have hheld : crashLooped { restartPolicy := { backoff := { threshold := 1 } } }
        (.setDesiredActive (some ⟨"d", "mock", none⟩) :: .setDesiredActive none ::
          launchedAndGone) = true := by
      decide +kernel
    exact Bool.false_ne_true (hmay.noCrashLoop.symm.trans hheld)

end Supervision

end Tensorplate
