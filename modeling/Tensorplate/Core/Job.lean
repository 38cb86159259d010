import Mathlib.Data.Rat.Init
import Tensorplate.Core.Error
import Tensorplate.Lib.Bytes

/-!
# Job requests and results

`JobRequest::create` and the payloads of the three job classes, with the
results a job ends with. A payload's PCM window is the bytes it names: a
window is made over the whole of a buffer that was just allocated, so its
buffer is valid and the window inside it.
-/

namespace Tensorplate

open Lib

/-- The bytes of a `std::string`. -/
abbrev Text := List UInt8

def kJobInputSampleRateHz : ℕ := 16000

def kJobOutputSampleRateHz : ℕ := 24000

def kMaxAudioFramesBytes : ℕ := 960000

def kMaxTextSegmentBytes : ℕ := 4096

def kMaxVadFramesPerJob : ℕ := 32

def kMaxVadFramesBytes : ℕ := 32768

def kMaxLanguageTagBytes : ℕ := 16

def kMaxVoiceIdBytes : ℕ := 64

/-- `kMaxAudioChunkBytes`, the largest synthesized result. -/
def kMaxAudioChunkBytes : ℕ := 1440000

/-- `JobClass`. -/
inductive JobClass
  | sttDecode
  | ttsSynthesis
  | vadFrames
  deriving DecidableEq, Repr

/-- The stable name of a class. -/
def JobClass.toName : JobClass → String
  | .sttDecode => "stt_decode"
  | .ttsSynthesis => "tts_synthesis"
  | .vadFrames => "vad_frames"

/-- `JobIdentity`. -/
structure JobIdentity where
  jobId : ℕ
  sessionKey : ℕ
  generation : ℕ
  deriving DecidableEq, Repr

/-- `JobPayload`: one per class, in class order. -/
inductive JobPayload
  | audioFrames (pcm : Bytes) (startSample : ℕ)
  | textSegment (text : Text)
  | vadFrames (pcm : Bytes) (frameSamples frameCount utteranceId : ℕ)
  deriving DecidableEq

/-- The class a payload is for. -/
def JobPayload.jobClass : JobPayload → JobClass
  | .audioFrames .. => .sttDecode
  | .textSegment _ => .ttsSynthesis
  | .vadFrames .. => .vadFrames

/-- `JobOptions`. -/
structure JobOptions where
  language : Text := []
  voice : Text := []
  speedMilli : ℕ := 0
  deriving DecidableEq, Repr

/-- `JobRequest`. -/
structure JobRequest where
  identity : JobIdentity
  payload : JobPayload
  options : JobOptions
  deriving DecidableEq

namespace JobRequest

/-- `internal::invalid`. -/
def invalid (reason message : String) : Except Error Unit :=
  .error (Error.make .configInvalid message reason)

def isAsciiAlpha (c : UInt8) : Bool := (97 ≤ c && c ≤ 122) || (65 ≤ c && c ≤ 90)

def isAsciiDigit (c : UInt8) : Bool := 48 ≤ c && c ≤ 57

/-- The subtags of a language tag: each "-" and 1 to 8 letters or digits.
`run` counts the subtag under way. -/
def subtags (run : ℕ) : Text → Bool
  | [] => 1 ≤ run && run ≤ 8
  | c :: rest =>
    if isAsciiAlpha c || isAsciiDigit c then subtags (run + 1) rest
    else c == 45 && (1 ≤ run && run ≤ 8) && subtags 0 rest

/-- `is_language_tag`: 2 or 3 letters, then its subtags. -/
def isLanguageTag (tag : Text) : Bool :=
  if tag.length > kMaxLanguageTagBytes then false
  else
    let letters := tag.takeWhile isAsciiAlpha
    if letters.length < 2 || letters.length > 3 then false
    else
      match tag.drop letters.length with
      | [] => true
      | c :: rest => c == 45 && subtags 0 rest

/-- `is_voice_id`. -/
def isVoiceId (voice : Text) : Bool :=
  if voice.isEmpty || voice.length > kMaxVoiceIdBytes then false
  else voice.all fun c => isAsciiAlpha c || isAsciiDigit c || c == 95 || c == 45 || c == 46

/-- `is_well_formed_utf8`. -/
def isWellFormedUtf8 : Text → Bool
  | [] => true
  | lead :: rest =>
    let continues (lo hi c : UInt8) : Bool := lo ≤ c && c ≤ hi
    if lead ≤ 0x7F then isWellFormedUtf8 rest
    else if 0xC2 ≤ lead && lead ≤ 0xDF then
      match rest with
      | c₁ :: rest => continues 0x80 0xBF c₁ && isWellFormedUtf8 rest
      | _ => false
    else if 0xE0 ≤ lead && lead ≤ 0xEF then
      match rest with
      | c₁ :: c₂ :: rest =>
        continues (if lead = 0xE0 then 0xA0 else 0x80) (if lead = 0xED then 0x9F else 0xBF) c₁ &&
          continues 0x80 0xBF c₂ && isWellFormedUtf8 rest
      | _ => false
    else if 0xF0 ≤ lead && lead ≤ 0xF4 then
      match rest with
      | c₁ :: c₂ :: c₃ :: rest =>
        continues (if lead = 0xF0 then 0x90 else 0x80) (if lead = 0xF4 then 0x8F else 0xBF) c₁ &&
          continues 0x80 0xBF c₂ && continues 0x80 0xBF c₃ && isWellFormedUtf8 rest
      | _ => false
    else false

/-- `validate_options`. -/
def validateOptions (jobClass : JobClass) (options : JobOptions) : Except Error Unit :=
  let takesLanguage := jobClass != .vadFrames
  let takesVoice := jobClass == .ttsSynthesis
  if (!takesLanguage && !options.language.isEmpty) ||
      (!takesVoice && (!options.voice.isEmpty || options.speedMilli != 0)) then
    invalid "option_not_applicable"
      ("an option is set that job class " ++ jobClass.toName ++ " does not take")
  else if takesLanguage && !isLanguageTag options.language then
    invalid "language_invalid" "language is missing or not a language tag"
  else if takesVoice && !isVoiceId options.voice then
    invalid "voice_invalid" "voice is missing or not a voice identifier"
  else if takesVoice && options.speedMilli == 0 then
    invalid "speed_invalid" "speed_milli must be nonzero"
  else .ok ()

/-- `validate_pcm`, the part a window over the whole of its buffer can
fail. -/
def validatePcm (pcm : Bytes) (name : String) : Except Error Unit :=
  if pcm.size = 0 then invalid "pcm_window_empty" (name ++ " window is empty")
  else if pcm.size % 2 ≠ 0 then
    invalid "pcm_misaligned" (name ++ " window must hold whole 16-bit samples")
  else .ok ()

/-- `validate` of each payload. -/
def validatePayload : JobPayload → Except Error Unit
  | .audioFrames pcm _ => do
    validatePcm pcm "AudioFrames"
    if pcm.size > kMaxAudioFramesBytes then
      invalid "pcm_too_large" "AudioFrames window exceeds 960000 bytes"
  | .textSegment text =>
    if text.isEmpty then invalid "text_empty" "TextSegment text must not be empty"
    else if text.length > kMaxTextSegmentBytes then
      invalid "text_too_large" "TextSegment text exceeds 4096 bytes"
    else if !isWellFormedUtf8 text then
      invalid "text_invalid_utf8" "TextSegment text is not well-formed UTF-8"
    else .ok ()
  | .vadFrames pcm frameSamples frameCount utteranceId => do
    validatePcm pcm "VadFrames"
    if frameCount = 0 ∨ frameCount > kMaxVadFramesPerJob then
      invalid "vad_frame_count_out_of_range" "VadFrames frame_count must be 1..32"
    else if pcm.size > kMaxVadFramesBytes then
      invalid "pcm_too_large" "VadFrames window exceeds 32768 bytes"
    else if pcm.size ≠ frameCount * frameSamples * 2 then
      invalid "vad_frame_bytes_mismatch"
        "VadFrames window must hold frame_count * frame_samples samples"
    else if utteranceId = 0 then
      invalid "utterance_id_zero" "VadFrames utterance_id must be nonzero"

/-- `validate_job_identity`. -/
def validateIdentity (identity : JobIdentity) : Except Error Unit :=
  if identity.jobId = 0 then invalid "job_id_zero" "job_id must be nonzero"
  else if identity.sessionKey = 0 then invalid "session_key_zero" "session_key must be nonzero"
  else if identity.generation = 0 then invalid "generation_zero" "generation must be nonzero"
  else .ok ()

/-- `JobRequest::create` of a job without progress events, its class the
payload's own. -/
def create (identity : JobIdentity) (payload : JobPayload) (options : JobOptions) :
    Except Error JobRequest := do
  validateIdentity identity
  validateOptions payload.jobClass options
  validatePayload payload
  .ok ⟨identity, payload, options⟩

end JobRequest

/-- What a job ends with: a result of one of the three kinds, or the error
of a job that failed. A probability is the rational value of a finite
float, and nothing for one that is not finite. -/
inductive JobOutcome
  | transcript (text : Text)
  | speech (pcm : Bytes)
  | vad (probabilities : List (Option ℚ))
  | failed (error : Error)

end Tensorplate
