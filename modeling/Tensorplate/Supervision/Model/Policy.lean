import Mathlib.Algebra.GroupWithZero.Nat
import Mathlib.Data.UInt
import Mathlib.Order.Basic

/-!
# Backoff and crash-loop detection

`BackoffScheduler` consumes monotonic instants and failure classes and
says what the supervisor does next. An instant is a count of nanoseconds;
the fixed-width settings keep the width the source gives them, since the
growth of the delay is computed in a wider type and cut back.
-/

namespace Tensorplate

namespace Supervision

/-! ## Configuration -/

inductive RestartPolicyKind
  | disabled
  | boundedBackoff
  deriving DecidableEq, Repr

/-- `BackoffConfig`, with the source's defaults. -/
structure BackoffConfig where
  initialDelayMs : UInt64 := 500
  multiplierHundredths : UInt32 := 200
  maxDelayMs : UInt64 := 30000
  windowMs : UInt64 := 300000
  threshold : UInt32 := 5
  stableResetMs : UInt64 := 120000
  deriving DecidableEq, Repr

structure RestartPolicy where
  kind : RestartPolicyKind := .boundedBackoff
  backoff : BackoffConfig := {}
  deriving DecidableEq, Repr

/-- What `SupervisorConfig::validate` asks of the restart policy. A disabled
policy is not looked at. -/
def RestartPolicy.validate (p : RestartPolicy) : Except String Unit :=
  match p.kind with
  | .disabled => .ok ()
  | .boundedBackoff =>
    let b := p.backoff
    if b.initialDelayMs = 0 then
      .error "supervision.restart_policy.backoff.initial_delay_ms must be > 0"
    else if b.multiplierHundredths < 100 then
      .error "supervision.restart_policy.backoff.multiplier_hundredths must be >= 100 (1.0x)"
    else if b.maxDelayMs < b.initialDelayMs then
      .error "supervision.restart_policy.backoff.max_delay_ms must be >= initial_delay_ms"
    else if b.windowMs = 0 then
      .error "supervision.restart_policy.backoff.window_ms must be > 0"
    else if b.threshold = 0 then
      .error "supervision.restart_policy.backoff.threshold must be > 0"
    else if b.stableResetMs = 0 then
      .error "supervision.restart_policy.backoff.stable_reset_ms must be > 0"
    else
      .ok ()

/-! ## Instants -/

/-- `Duration::from_millis`. -/
def fromMillis (ms : UInt64) : ℕ := ms.toNat * 1000000

/-- The last instant the platform's clock can name: seconds in an `i64`. -/
def instantMax : ℕ := (2 ^ 63 - 1) * 1000000000 + 999999999

/-- `now.checked_add(delay).unwrap_or(now)`. -/
def addOrStay (now delay : ℕ) : ℕ :=
  if now + delay ≤ instantMax then now + delay else now

/-! ## The scheduler -/

inductive FailureClass
  | exitBeforeReady
  | exitAfterReady
  | notReadyTimeout
  | healthFailed
  | healthDegraded
  deriving DecidableEq, Repr

/-- What the failure adds to the rolling counter. -/
def FailureClass.weight : FailureClass → ℕ
  | .exitBeforeReady => 1
  | .notReadyTimeout => 1
  | .healthFailed => 1
  | .exitAfterReady => 1
  | .healthDegraded => 1

/-- The name `{:?}` prints. -/
def FailureClass.debug : FailureClass → String
  | .exitBeforeReady => "ExitBeforeReady"
  | .exitAfterReady => "ExitAfterReady"
  | .notReadyTimeout => "NotReadyTimeout"
  | .healthFailed => "HealthFailed"
  | .healthDegraded => "HealthDegraded"

inductive BackoffDecision
  | restart (instant delay : ℕ)
  | enterCrashLoop (reason : String)
  | policyDisabled
  deriving DecidableEq, Repr

def BackoffDecision.isCrashLoop : BackoffDecision → Bool
  | .enterCrashLoop _ => true
  | _ => false

/-- `RestartCounters`. -/
structure RestartCounters where
  rollingCount : ℕ := 0
  threshold : UInt32 := 0
  currentDelayMs : UInt64 := 0
  stableUptimeMs : ℕ := 0
  deriving DecidableEq, Repr

structure BackoffScheduler where
  policy : RestartPolicy
  /-- The failures of the rolling window, oldest first. -/
  failures : List ℕ := []
  lastAttempt : Option ℕ := none
  lastReadyAt : Option ℕ := none
  currentDelayMs : UInt64
  deriving DecidableEq, Repr

namespace BackoffScheduler

def new (policy : RestartPolicy) : BackoffScheduler :=
  { policy, currentDelayMs := policy.backoff.initialDelayMs }

def cfg (s : BackoffScheduler) : BackoffConfig := s.policy.backoff

def onReady (s : BackoffScheduler) (now : ℕ) : BackoffScheduler :=
  { s with lastReadyAt := some now }

def maybeResetAfterStableReady (s : BackoffScheduler) (now : ℕ) : BackoffScheduler :=
  match s.lastReadyAt with
  | none => s
  | some readyAt =>
    if fromMillis s.cfg.stableResetMs ≤ now - readyAt then
      { s with failures := [], currentDelayMs := s.cfg.initialDelayMs, lastAttempt := none }
    else s

def pruneWindow (s : BackoffScheduler) (now : ℕ) : BackoffScheduler :=
  { s with failures := s.failures.dropWhile fun front => fromMillis s.cfg.windowMs < now - front }

/-- `usize` to `u32`, or the largest one. -/
def clampU32 (n : ℕ) : ℕ := min n (2 ^ 32 - 1)

/-- `u128` to milliseconds in a `u64`, or the largest one. -/
def clampU64 (n : ℕ) : ℕ := min n (2 ^ 64 - 1)

def counters (s : BackoffScheduler) (now : ℕ) : RestartCounters where
  rollingCount := clampU32 s.failures.length
  threshold := s.cfg.threshold
  currentDelayMs := s.currentDelayMs
  stableUptimeMs := match s.lastReadyAt with
    | none => 0
    | some t => clampU64 ((now - t) / 1000000)

def nextDelayMs (s : BackoffScheduler) : UInt64 :=
  let base :=
    match s.lastAttempt with
    | some _ =>
      let scaled := min (s.currentDelayMs.toNat * s.cfg.multiplierHundredths.toNat) (2 ^ 128 - 1)
      let div := scaled / 100
      if div < 2 ^ 64 then UInt64.ofNat div else s.cfg.maxDelayMs
    | none => s.cfg.initialDelayMs
  max (min base s.cfg.maxDelayMs) s.cfg.initialDelayMs

/-- The failure recorded: the stable uptime counted, the window cut, one
entry for each unit of the class's weight. -/
def record (s : BackoffScheduler) (now : ℕ) (cls : FailureClass) : BackoffScheduler :=
  let s := (s.maybeResetAfterStableReady now).pruneWindow now
  { s with failures := s.failures ++ List.replicate cls.weight now }

def isAtThreshold (s : BackoffScheduler) : Bool :=
  s.cfg.threshold.toNat ≤ clampU32 s.failures.length

def onFailure (s : BackoffScheduler) (now : ℕ) (cls : FailureClass) :
    BackoffScheduler × BackoffDecision :=
  match s.policy.kind with
  | .disabled => (s, .policyDisabled)
  | .boundedBackoff =>
    let s := s.record now cls
    if s.isAtThreshold then
      (s, .enterCrashLoop (cls.debug ++ ": " ++ toString s.failures.length ++
        " failures in last " ++ toString s.cfg.windowMs ++ " ms (threshold=" ++
        toString s.cfg.threshold ++ ")"))
    else
      let next := s.nextDelayMs
      ({ s with currentDelayMs := next, lastAttempt := some now },
        .restart (addOrStay now (fromMillis next)) (fromMillis next))

/-- `reset`. -/
def reset (s : BackoffScheduler) : BackoffScheduler :=
  { s with
    failures := []
    currentDelayMs := s.cfg.initialDelayMs
    lastAttempt := none
    lastReadyAt := none }

end BackoffScheduler

/-! ## Histories -/

/-- A call on the scheduler. -/
inductive Call
  | onReady (now : ℕ)
  | onFailure (now : ℕ) (cls : FailureClass)
  | reset
  deriving DecidableEq, Repr

/-- When the call was made; `reset` reads no clock. -/
def Call.time : Call → Option ℕ
  | .onReady now => some now
  | .onFailure now _ => some now
  | .reset => none

/-- The scheduler after a call. -/
def BackoffScheduler.call (s : BackoffScheduler) : Call → BackoffScheduler
  | .onReady now => s.onReady now
  | .onFailure now cls => (s.onFailure now cls).1
  | .reset => s.reset

/-- The scheduler after a history, the newest call at the head. -/
def BackoffScheduler.after (p : RestartPolicy) : List Call → BackoffScheduler
  | [] => .new p
  | c :: h => (after p h).call c

end Supervision

end Tensorplate
