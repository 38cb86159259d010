import Tensorplate.Core.Job
import Tensorplate.Session.Model.Machine

/-!
# Limits and budgets of a session

`SessionLimits`, `SessionBudgets` and the usage a session reports. Both
are built only through their checked constructors, so their values carry
the checks. Points in time and durations count nanoseconds of the steady
clock.
-/

namespace Tensorplate

namespace Serving

/-- A reading of the clock. -/
abbrev TimePoint := ℕ

abbrev Duration := ℕ

def milliseconds (count : ℕ) : Duration := count * 1000000

def seconds (count : ℕ) : Duration := milliseconds (count * 1000)

/-- `kWorkerControlMaxSessions`, the ceiling the control wire bounds. -/
def kProtocolSessionCeiling : ℕ := 2048

/-- The checks of `SessionLimits::create`; the arguments are in
milliseconds. -/
def SessionLimits.accepts (idle heartbeat liveness maxDuration maxSessions : ℕ) : Bool :=
  0 < idle && 0 < heartbeat && 0 < liveness && 0 < maxDuration && heartbeat < liveness &&
    0 < maxSessions && maxSessions ≤ kProtocolSessionCeiling && idle ≤ 3600000 &&
    liveness ≤ 3600000 && maxDuration ≤ 3600000

/-- `SessionLimits`, in milliseconds. -/
structure SessionLimits where
  idleTimeout : ℕ
  heartbeatInterval : ℕ
  livenessTimeout : ℕ
  maxDuration : ℕ
  maxSessions : ℕ
  accepted : SessionLimits.accepts idleTimeout heartbeatInterval livenessTimeout maxDuration
    maxSessions = true
  deriving DecidableEq, Repr

/-- `SessionLimits::defaults`. -/
def SessionLimits.defaults : SessionLimits :=
  ⟨60000, 10000, 30000, 3600000, kProtocolSessionCeiling, by decide⟩

/-- `SessionLimits::create`. -/
def SessionLimits.create (idle heartbeat liveness maxDuration maxSessions : ℕ) :
    Except Error SessionLimits :=
  if h : SessionLimits.accepts idle heartbeat liveness maxDuration maxSessions = true then
    .ok ⟨idle, heartbeat, liveness, maxDuration, maxSessions, h⟩
  else .error (Error.make .configInvalid "invalid session limits" "invalid_session_limits")

/-- `SessionInputKind`: what a session's client sends as input. -/
inductive SessionInputKind
  | audio
  | text
  deriving DecidableEq, Repr

namespace SessionBudgets

def kInputAudioWindow : ℕ := 1

def kWaitingTextSegments : ℕ := 2

def kWaitingTextBytes : ℕ := 8192

def kActiveTextSegments : ℕ := 1

def kOutputPcmWindow : ℕ := 2

def kOutputMetadataBytes : ℕ := 16384

def kOutputControlReserveBytes : ℕ := 1024

/-- How long output may await delivery without progress. -/
def kOutputNoProgressTimeout : Duration := seconds 5

/-- What the two constructors give each kind of input. -/
def shaped (kind : SessionInputKind) (credit waiting active pcm : ℕ) : Prop :=
  match kind with
  | .audio => credit ≤ kMaxAudioFramesBytes ∧ waiting = 0 ∧ active = 0 ∧ pcm = 0
  | .text => credit = kWaitingTextBytes ∧ waiting = kWaitingTextSegments ∧
      active = kActiveTextSegments ∧ pcm ≤ kMaxAudioChunkBytes

end SessionBudgets

/-- `SessionBudgets`: byte budgets of one session. The metadata budget and
its lifecycle reserve are the same for every session. -/
structure SessionBudgets where
  inputKind : SessionInputKind
  inputCreditBytes : ℕ
  waitingItems : ℕ
  activeItems : ℕ
  outputPcmBytes : ℕ
  isShaped : SessionBudgets.shaped inputKind inputCreditBytes waitingItems activeItems
    outputPcmBytes
  deriving DecidableEq, Repr

namespace SessionBudgets

def outputMetadataBytes (_ : SessionBudgets) : ℕ := kOutputMetadataBytes

def outputControlReserveBytes (_ : SessionBudgets) : ℕ := kOutputControlReserveBytes

/-- `invalid_budgets`. -/
def invalidBudgets : Error :=
  Error.make .configInvalid "invalid session byte rate" "invalid_session_budgets"

/-- `SessionBudgets::for_audio_input`. -/
def forAudioInput (inputBytesPerSecond : ℕ) : Except Error SessionBudgets :=
  if h : inputBytesPerSecond = 0 ∨
      inputBytesPerSecond > kMaxAudioFramesBytes / kInputAudioWindow then
    .error invalidBudgets
  else
    .ok ⟨.audio, inputBytesPerSecond * kInputAudioWindow, 0, 0, 0, by
      simp only [kInputAudioWindow, Nat.div_one, not_or, gt_iff_lt, Nat.not_lt] at h
      exact ⟨by simpa [kInputAudioWindow] using h.2, rfl, rfl, rfl⟩⟩

/-- `SessionBudgets::for_text_input`. -/
def forTextInput (outputBytesPerSecond : ℕ) : Except Error SessionBudgets :=
  if h : outputBytesPerSecond = 0 ∨
      outputBytesPerSecond > kMaxAudioChunkBytes / kOutputPcmWindow then
    .error invalidBudgets
  else
    .ok ⟨.text, kWaitingTextBytes, kWaitingTextSegments, kActiveTextSegments,
      outputBytesPerSecond * kOutputPcmWindow, by
      simp only [not_or, gt_iff_lt, Nat.not_lt] at h
      exact ⟨rfl, rfl, rfl, (Nat.le_div_iff_mul_le (by decide)).1 h.2⟩⟩

end SessionBudgets

/-- `LogicalSessionUsage`: the use of one budget. -/
structure LogicalSessionUsage where
  used : ℕ
  limit : ℕ
  deriving DecidableEq, Repr

/-- `LogicalSessionUsage::create(..).value_or(LogicalSessionUsage{})`, as
every caller has it. -/
def LogicalSessionUsage.ofUse (used limit : ℕ) : LogicalSessionUsage :=
  if used > limit then ⟨0, 0⟩ else ⟨used, limit⟩

/-- `LogicalSessionStatus`. -/
structure LogicalSessionStatus where
  state : LogicalSessionState
  inputQueueDepth : ℕ
  inputCreditBytes : LogicalSessionUsage
  outputPcmBytes : LogicalSessionUsage
  outputMetadataBytes : LogicalSessionUsage
  deriving DecidableEq, Repr

end Serving

end Tensorplate
