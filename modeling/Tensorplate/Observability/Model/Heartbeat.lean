import Mathlib.Algebra.GroupWithZero.Nat
import Mathlib.Data.Nat.Notation

/-!
# The heartbeat evaluator

`HeartbeatEvaluator` of the observability service: the last heartbeat of
each source, and the health that follows from the time since. Instants and
durations are in nanoseconds; each call is given its reading of the clock.
-/

namespace Tensorplate

namespace Observability

/-- `InputSource`. -/
inductive InputSource
  | servingWorker
  | agentSupervisor
  | internal
  deriving DecidableEq, Repr

/-- `HeartbeatHealth`. -/
inductive HeartbeatHealth
  | noneYet
  | fresh
  | stale
  | noHeartbeat
  deriving DecidableEq, Repr

/-- `HeartbeatPolicy`. -/
structure HeartbeatPolicy where
  expectedIntervalMs : UInt64 := 1000
  graceMs : UInt64 := 250
  missedThreshold : UInt32 := 3
  recoveryHeartbeats : UInt32 := 1
  deriving DecidableEq

/-- `validate_heartbeat`. -/
def validateHeartbeat (cfg : HeartbeatPolicy) : Except String Unit :=
  if cfg.expectedIntervalMs = 0 then .error "heartbeat.expected_interval_ms must be > 0"
  else if cfg.missedThreshold = 0 then .error "heartbeat.missed_threshold must be >= 1"
  else if cfg.recoveryHeartbeats = 0 then .error "heartbeat.recovery_heartbeats must be >= 1"
  else .ok ()

/-- `Duration::from_millis`. -/
def fromMillis (ms : UInt64) : ℕ := ms.toNat * 1000000

/-- `duration_to_u64_ms`. -/
def durationToU64Ms (d : ℕ) : ℕ := min (d / 1000000) (2 ^ 64 - 1)

/-- `missed_full_windows`. -/
def missedFullWindows (elapsed expected grace : ℕ) : ℕ :=
  if expected = 0 then 1
  else
    let usable := durationToU64Ms elapsed - durationToU64Ms grace
    let expectedMs := durationToU64Ms expected
    let estimate := if expectedMs = 0 then 1 else usable / expectedMs
    min estimate (2 ^ 32 - 1)

/-- `SourceState`. -/
structure SourceState where
  registeredAt : ℕ
  lastHeartbeatAt : Option ℕ := none
  missedCount : ℕ := 0
  consecutiveRecoveryHeartbeats : ℕ := 0
  health : HeartbeatHealth := .noneYet
  deriving DecidableEq, Repr

/-- The bound on the count of missed beats. -/
def HeartbeatPolicy.cap (policy : HeartbeatPolicy) : ℕ :=
  min (policy.missedThreshold.toNat * 4) (2 ^ 32 - 1)

/-- `recompute_in_place`. -/
def recomputeInPlace (policy : HeartbeatPolicy) (entry : SourceState) (now : ℕ) : SourceState :=
  let expected := fromMillis policy.expectedIntervalMs
  let grace := fromMillis policy.graceMs
  match entry.lastHeartbeatAt with
  | none =>
    let missed := min (missedFullWindows (now - entry.registeredAt) expected grace) policy.cap
    { entry with
      missedCount := missed
      health :=
        if missed ≥ policy.missedThreshold.toNat then .noHeartbeat
        else if missed > 0 then .stale
        else .noneYet }
  | some last =>
    let elapsed := now - last
    if elapsed < expected + grace then { entry with health := .fresh }
    else
      let missed := min (missedFullWindows elapsed expected grace) policy.cap
      { entry with
        missedCount := missed
        consecutiveRecoveryHeartbeats := 0
        health := if missed ≥ policy.missedThreshold.toNat then .noHeartbeat else .stale }

/-- `HeartbeatEvaluator`, its map keyed by the source. -/
structure HeartbeatEvaluator where
  policy : HeartbeatPolicy
  state : InputSource → Option SourceState := fun _ => none

namespace HeartbeatEvaluator

/-- The entry of a source becomes `entry`. -/
def insert (e : HeartbeatEvaluator) (source : InputSource) (entry : SourceState) :
    HeartbeatEvaluator :=
  { e with state := fun s => if s = source then some entry else e.state s }

/-- What a heartbeat does to an entry. -/
def observe (policy : HeartbeatPolicy) (entry : SourceState) (receivedAt : ℕ) : SourceState :=
  let entry := { entry with lastHeartbeatAt := some receivedAt }
  if entry.health = .noHeartbeat then
    let count := min (entry.consecutiveRecoveryHeartbeats + 1) (2 ^ 32 - 1)
    if count ≥ policy.recoveryHeartbeats.toNat then
      { entry with missedCount := 0, consecutiveRecoveryHeartbeats := 0, health := .fresh }
    else { entry with consecutiveRecoveryHeartbeats := count }
  else { entry with missedCount := 0, consecutiveRecoveryHeartbeats := 0, health := .fresh }

/-- `observe_heartbeat`. -/
def observeHeartbeat (e : HeartbeatEvaluator) (source : InputSource) (receivedAt : ℕ) :
    HeartbeatEvaluator :=
  let entry := (e.state source).getD { registeredAt := receivedAt }
  e.insert source (observe e.policy entry receivedAt)

/-- `evaluate`. -/
def evaluate (e : HeartbeatEvaluator) (now : ℕ) : HeartbeatEvaluator :=
  { e with state := fun s => (e.state s).map fun entry => recomputeInPlace e.policy entry now }

/-- `register_source`. -/
def registerSource (e : HeartbeatEvaluator) (source : InputSource) (now : ℕ) :
    HeartbeatEvaluator :=
  e.insert source ((e.state source).getD { registeredAt := now })

end HeartbeatEvaluator

/-- A call of the evaluator, with the instant it is made at. A tick of the
service observes what it drained and then evaluates. -/
inductive Call
  | registerSource (source : InputSource) (now : ℕ)
  | observeHeartbeat (source : InputSource) (receivedAt : ℕ)
  | evaluate (now : ℕ)
  deriving DecidableEq, Repr

/-- The instant of a call. -/
def Call.instant : Call → ℕ
  | .registerSource _ now | .observeHeartbeat _ now | .evaluate now => now

/-- The evaluator behind a call. -/
def HeartbeatEvaluator.call (e : HeartbeatEvaluator) : Call → HeartbeatEvaluator
  | .registerSource source now => e.registerSource source now
  | .observeHeartbeat source receivedAt => e.observeHeartbeat source receivedAt
  | .evaluate now => e.evaluate now

/-- The evaluator behind a sequence of calls. -/
def HeartbeatEvaluator.calls (e : HeartbeatEvaluator) (calls : List Call) : HeartbeatEvaluator :=
  calls.foldl HeartbeatEvaluator.call e

/-- What a call reports of a source: `observe_heartbeat` of its own,
`evaluate` of all. -/
def HeartbeatEvaluator.report (e : HeartbeatEvaluator) (c : Call) (source : InputSource) :
    Option HeartbeatHealth :=
  match c with
  | .registerSource _ _ => none
  | .observeHeartbeat s _ =>
    if s = source then ((e.call c).state source).map SourceState.health else none
  | .evaluate _ => ((e.call c).state source).map SourceState.health

end Observability

end Tensorplate
