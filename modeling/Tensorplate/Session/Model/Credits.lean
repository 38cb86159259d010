import Tensorplate.Lib.Word
import Tensorplate.Session.Model.Limits

/-!
# Input credit

`InputCredit`: what a session has accepted and still owns. Audio is held
until consumed; a text segment waits, then holds the single active slot
until its output was delivered. A refused call changes nothing. Bytes are
counted in 64 bits and chunks in 32; where the source does not look first,
the sum or difference wraps.
-/

namespace Tensorplate

namespace Serving

open Lib (add64 sub64)

/-- The number of values a `std::uint32_t` takes. -/
def chunkWord : ℕ := 2 ^ 32

/-- `InputCredit`. -/
structure InputCredit where
  budgets : SessionBudgets
  heldBytes : ℕ := 0
  audioChunks : ℕ := 0
  waitingSegments : List ℕ := []
  activeSegments : ℕ := 0
  deriving DecidableEq, Repr

namespace InputCredit

/-- `caller_defect`. -/
def callerDefect (message context : String) : Error :=
  Error.make .internal message context

/-- `charge`. -/
def charge (c : InputCredit) (bytes : ℕ) : InputCredit × Except Error Unit :=
  if bytes = 0 then
    (c, .error (Error.make .configInvalid "input item carries no bytes" "empty_input"))
  else
    let text := c.budgets.inputKind == .text
    if bytes > sub64 c.budgets.inputCreditBytes c.heldBytes ||
        (text && c.waitingSegments.length ≥ c.budgets.waitingItems) then
      (c, .error (Error.make .resourceExhausted "input exceeds the session's credit"
        "input_credit_exceeded"))
    else if text then
      ({ c with
          heldBytes := add64 c.heldBytes bytes
          waitingSegments := c.waitingSegments ++ [bytes] }, .ok ())
    else
      ({ c with
          heldBytes := add64 c.heldBytes bytes
          audioChunks := (c.audioChunks + 1) % chunkWord }, .ok ())

/-- `release_audio`. -/
def releaseAudio (chunks bytes : ℕ) (c : InputCredit) : InputCredit × Except Error Unit :=
  if c.budgets.inputKind ≠ .audio then
    (c, .error (callerDefect "audio release on a text session" "wrong_input_kind"))
  else if bytes = 0 ∨ bytes > c.heldBytes ∨ chunks > c.audioChunks ∨
      (bytes == c.heldBytes) ≠ (chunks == c.audioChunks) then
    (c, .error (callerDefect "audio release does not match the input held"
      "input_release_mismatch"))
  else
    ({ c with heldBytes := c.heldBytes - bytes, audioChunks := c.audioChunks - chunks }, .ok ())

/-- `start_segment`. -/
def startSegment (c : InputCredit) : InputCredit × Except Error Unit :=
  if c.budgets.inputKind ≠ .text then
    (c, .error (callerDefect "text segment stage on an audio session" "wrong_input_kind"))
  else
    match c.waitingSegments with
    | [] => (c, .error stageViolation)
    | segment :: rest =>
      if c.activeSegments ≥ c.budgets.activeItems then (c, .error stageViolation)
      else
        ({ c with
            heldBytes := sub64 c.heldBytes segment
            waitingSegments := rest
            activeSegments := c.activeSegments + 1 }, .ok ())
where
  stageViolation : Error :=
    callerDefect "no waiting segment or the active slot is occupied" "segment_stage_violation"

/-- `finish_segment`. -/
def finishSegment (c : InputCredit) : InputCredit × Except Error Unit :=
  if c.budgets.inputKind ≠ .text then
    (c, .error (callerDefect "text segment stage on an audio session" "wrong_input_kind"))
  else if c.activeSegments = 0 then
    (c, .error (callerDefect "no active segment" "segment_stage_violation"))
  else ({ c with activeSegments := c.activeSegments - 1 }, .ok ())

/-- `depth`. -/
def depth (c : InputCredit) : ℕ :=
  (c.audioChunks + c.waitingSegments.length + c.activeSegments) % chunkWord

/-- `usage`. -/
def usage (c : InputCredit) : LogicalSessionUsage :=
  LogicalSessionUsage.ofUse c.heldBytes c.budgets.inputCreditBytes

/-- `waiting_segments`. -/
def waitingUsage (c : InputCredit) : LogicalSessionUsage :=
  LogicalSessionUsage.ofUse c.waitingSegments.length c.budgets.waitingItems

end InputCredit

end Serving

end Tensorplate
