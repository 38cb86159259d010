import Mathlib.Algebra.GroupWithZero.Nat
import Mathlib.Data.Rat.Defs
import Mathlib.Tactic.Common

/-!
# The sidecar's job objects

What a `job_submit` must satisfy, what a result may hold and the order of
one job's messages, on the sidecar's side of the socket. A header is the
object the JSON library read; a fault of its structure is malformed, and a
fault the seam has a reason for is refused with the reason.
-/

namespace Tensorplate

namespace Sidecar

/-- A value the JSON library reads. A number with a fraction or an exponent
is a float, which is a rational or no number at all. -/
inductive Value
  | null
  | bool (b : Bool)
  | int (i : ℤ)
  | float (x : Option ℚ)
  | str (s : String)
  | list (items : List Value)
  | dict (fields : List (String × Value))

/-- The fields of an object. -/
abbrev Header := List (String × Value)

/-- `get`. -/
def get (fields : Header) (name : String) : Option Value := fields.lookup name

/-- The value is this text. -/
def isText (value : Option Value) (text : String) : Bool :=
  match value with
  | some (.str s) => s = text
  | _ => false

/-! ## The protocol's words and bounds -/

/-- The job classes. -/
inductive JobClass
  | sttDecode
  | ttsSynthesis
  | vadFrames
  deriving DecidableEq, Repr

/-- The spelling of a class. -/
def JobClass.text : JobClass → String
  | .sttDecode => "stt_decode"
  | .ttsSynthesis => "tts_synthesis"
  | .vadFrames => "vad_frames"

/-- The kinds of input. -/
inductive JobInput
  | audioFrames
  | textSegment
  | vadFrames
  deriving DecidableEq, Repr

/-- The spelling of an input. -/
def JobInput.text : JobInput → String
  | .audioFrames => "audio_frames"
  | .textSegment => "text_segment"
  | .vadFrames => "vad_frames"

/-- The kinds of result. -/
inductive ResultKind
  | transcript
  | audioChunk
  | vad
  deriving DecidableEq, Repr

/-- The class of a spelling. -/
def jobClass? (text : String) : Option JobClass :=
  [JobClass.sttDecode, .ttsSynthesis, .vadFrames].find? fun c => c.text = text

/-- The input of a spelling. -/
def jobInput? (text : String) : Option JobInput :=
  [JobInput.audioFrames, .textSegment, .vadFrames].find? fun i => i.text = text

/-- `_INPUT_OF`. -/
def inputOf : JobClass → JobInput
  | .sttDecode => .audioFrames
  | .ttsSynthesis => .textSegment
  | .vadFrames => .vadFrames

/-- `RESULT_KIND_OF`. -/
def resultKindOf : JobClass → ResultKind
  | .sttDecode => .transcript
  | .ttsSynthesis => .audioChunk
  | .vadFrames => .vad

/-- `MAX_WIRE_INTEGER`. -/
def maxWireInteger : ℕ := 2 ^ 53 - 1

def limitJobInputSampleRateHz : ℕ := 16000
def limitJobOutputSampleRateHz : ℕ := 24000
def limitAudioFramesMaxBytes : ℕ := 960000
def limitTextSegmentMaxBytes : ℕ := 4096
def limitVadFramesMaxPerJob : ℕ := 32
def limitVadFramesMaxBytes : ℕ := 32768
def limitProgressEventsMax : ℕ := 1500
def limitLanguageTagMaxBytes : ℕ := 16
def limitVoiceIdMaxBytes : ℕ := 64
def limitTranscriptTextMaxBytes : ℕ := 8192
def limitTranscriptTokensMax : ℕ := 448
def limitAudioChunkMaxBytes : ℕ := 1440000
def limitVadProbabilitiesMax : ℕ := 32
def limitErrorTextMaxBytes : ℕ := 512

/-- The error codes. -/
inductive ErrorCode
  | configInvalid
  | loadFailed
  | notReady
  | shapeMismatch
  | unsupported
  | oomError
  | timeout
  | inferenceFailed
  | internal
  | cancelled
  | unavailable
  | resourceExhausted
  deriving DecidableEq, Repr

/-- `MESSAGES`. -/
def ErrorCode.message : ErrorCode → String
  | .configInvalid => "the request or the model configuration is invalid"
  | .loadFailed => "the model could not be loaded"
  | .notReady => "the backend is not ready"
  | .shapeMismatch => "the input does not match what the model accepts"
  | .unsupported => "the request is not supported"
  | .oomError => "the backend ran out of memory"
  | .timeout => "the operation timed out"
  | .inferenceFailed => "inference failed"
  | .internal => "the sidecar hit an internal error"
  | .cancelled => "the operation was cancelled"
  | .unavailable => "the backend is unavailable"
  | .resourceExhausted => "a resource limit was reached"

/-! ## Reading a message -/

/-- `MalformedJob` and `JobRefused`. -/
inductive Refusal
  | malformed
  | refused (reason : String)
  deriving DecidableEq, Repr

/-- `_require`. -/
def require (ok : Bool) (reason : String) : Except Refusal Unit :=
  if ok then .ok () else .error (.refused reason)

/-- `_wire_int`. -/
def wireInt (value : Option Value) (maximum : ℕ) : Except Refusal ℕ :=
  match value with
  | some (.int i) => if 0 ≤ i ∧ i ≤ maximum then .ok i.toNat else .error .malformed
  | _ => .error .malformed

/-- `_wire_text`. -/
def wireText (value : Option Value) : Except Refusal String :=
  match value with
  | some (.str s) => .ok s
  | _ => .error .malformed

/-- `_fields`. -/
def fieldsOf (value : Option Value) (required optional : List String) : Except Refusal Header :=
  match value with
  | some (.dict fields) =>
    if required.all (fun name => (get fields name).isSome) &&
        fields.all (fun (name, _) => required.contains name || optional.contains name) then
      .ok fields
    else .error .malformed
  | _ => .error .malformed

/-- `JobIdentity`. -/
structure JobIdentity where
  jobId : ℕ
  sessionKey : ℕ
  generation : ℕ
  deriving DecidableEq, Repr

/-- The session key and the generation of an identity. -/
def JobIdentity.session (identity : JobIdentity) : ℕ × ℕ :=
  (identity.sessionKey, identity.generation)

/-- `_check_identity`. -/
def checkIdentity (identity : JobIdentity) : Except Refusal JobIdentity := do
  require (identity.jobId ≠ 0) "job_id_zero"
  require (identity.sessionKey ≠ 0) "session_key_zero"
  require (identity.generation ≠ 0) "generation_zero"
  pure identity

/-- `read_identity`. -/
def readIdentity (header : Header) : Except Refusal JobIdentity := do
  let jobId ← wireInt (get header "job_id") maxWireInteger
  let sessionKey ← wireInt (get header "session_key") maxWireInteger
  let generation ← wireInt (get header "generation") maxWireInteger
  checkIdentity ⟨jobId, sessionKey, generation⟩

/-- `_ENVELOPE`. -/
def envelope : List String := ["schema_version", "message_id", "kind"]

/-- `_IDENTITY`. -/
def identityFields : List String := ["job_id", "session_key", "generation"]

/-- `read_cancel`. -/
def readCancel (header : Header) : Except Refusal JobIdentity := do
  let fields ← fieldsOf (some (.dict header)) (envelope ++ identityFields) []
  readIdentity fields

/-- The identity of a session, its job being 1. -/
def readSessionOf (header : Header) : Except Refusal (ℕ × ℕ) := do
  let sessionKey ← wireInt (get header "session_key") maxWireInteger
  let generation ← wireInt (get header "generation") maxWireInteger
  let identity ← checkIdentity ⟨1, sessionKey, generation⟩
  pure identity.session

/-- `read_session`. -/
def readSession (header : Header) : Except Refusal (ℕ × ℕ) := readSessionOf header

/-- `read_session_release`. -/
def readSessionRelease (header : Header) : Except Refusal (ℕ × ℕ) := do
  let fields ← fieldsOf (some (.dict header)) (envelope ++ ["session_key", "generation"]) []
  readSessionOf fields

/-- `AudioFormat`. -/
structure AudioFormat where
  encoding : String
  sampleRateHz : ℕ
  channels : ℕ
  deriving DecidableEq, Repr

/-- `INPUT_FORMAT`. -/
def inputFormat : AudioFormat := ⟨"pcm_s16le", limitJobInputSampleRateHz, 1⟩

/-- `OUTPUT_FORMAT`. -/
def outputFormat : AudioFormat := ⟨"pcm_s16le", limitJobOutputSampleRateHz, 1⟩

/-- `_check_pcm`, for a format whose numbers are whole. -/
def checkPcm (format required : AudioFormat) (size : ℕ) : Except Refusal Unit := do
  require (format = required) "audio_format_unsupported"
  require (size ≠ 0) "pcm_window_empty"
  require (size % 2 = 0) "pcm_misaligned"

/-- `JobRequest`. -/
structure JobRequest where
  identity : JobIdentity
  jobClass : JobClass
  progressLimit : ℕ
  payload : List UInt8
  language : String := ""
  voice : String := ""
  speedMilli : ℕ := 0
  startSample : ℕ := 0
  frameSamples : ℕ := 0
  frameCount : ℕ := 0
  utteranceId : ℕ := 0
  deriving DecidableEq, Repr

/-- A letter of the English alphabet. -/
def isLetter (c : Char) : Bool := ('a' ≤ c ∧ c ≤ 'z') ∨ ('A' ≤ c ∧ c ≤ 'Z')

/-- A letter or a digit. -/
def isWordChar (c : Char) : Bool := isLetter c || ('0' ≤ c ∧ c ≤ '9')

/-- `_LANGUAGE`: two or three letters, then subtags behind hyphens. -/
def isLanguage (s : String) : Bool :=
  match s.toList.splitOn '-' with
  | [] => false
  | tag :: subtags =>
    (2 ≤ tag.length ∧ tag.length ≤ 3) && tag.all isLetter &&
      subtags.all fun subtag =>
        (1 ≤ subtag.length ∧ subtag.length ≤ 8) && subtag.all isWordChar

/-- `_VOICE`. -/
def isVoice (s : String) : Bool :=
  s.toList ≠ [] && s.toList.all fun c => isWordChar c || c = '_' || c = '.' || c = '-'

/-- The bytes are a text in UTF-8. -/
def isUtf8 (payload : List UInt8) : Bool :=
  (String.fromUTF8? ⟨payload.toArray⟩).isSome

/-- `_INPUT_FIELDS`. -/
def inputFields : JobInput → List String
  | .audioFrames => ["format", "start_sample"]
  | .textSegment => []
  | .vadFrames => ["format", "frame_samples", "frame_count", "utterance_id"]

/-- The numbers of an input. -/
structure InputNumbers where
  startSample : ℕ := 0
  frameSamples : ℕ := 0
  frameCount : ℕ := 0
  utteranceId : ℕ := 0
  deriving DecidableEq, Repr

/-- The numbers of an input, each read where its kind has it. -/
def readNumbers (input : JobInput) (source : Header) : Except Refusal InputNumbers :=
  match input with
  | .audioFrames => do
    let startSample ← wireInt (get source "start_sample") maxWireInteger
    pure { startSample := startSample }
  | .textSegment => pure {}
  | .vadFrames => do
    let frameSamples ← wireInt (get source "frame_samples") maxWireInteger
    let frameCount ← wireInt (get source "frame_count") maxWireInteger
    let utteranceId ← wireInt (get source "utterance_id") maxWireInteger
    pure { frameSamples := frameSamples, frameCount := frameCount, utteranceId := utteranceId }

/-- The format of an input, where it has one. -/
def readFormat (source : Header) : Except Refusal (Option AudioFormat) :=
  match get source "format" with
  | none => pure none
  | some value => do
    let parts ← fieldsOf (some value) ["encoding", "sample_rate_hz", "channels"] []
    let encoding ← wireText (get parts "encoding")
    let sampleRateHz ← wireInt (get parts "sample_rate_hz") maxWireInteger
    let channels ← wireInt (get parts "channels") maxWireInteger
    pure (some ⟨encoding, sampleRateHz, channels⟩)

/-- What the structure of a `job_submit` says, before the runtime's checks. -/
structure Submitted where
  jobClass : String
  progressLimit : ℕ
  hasLanguage : Bool
  hasVoice : Bool
  hasSpeed : Bool
  language : String
  voice : String
  speedMilli : ℕ
  input : JobInput
  numbers : InputNumbers
  format : Option AudioFormat

/-- An optional text, empty where it is absent. -/
def optionalText (options : Header) (name : String) : Except Refusal String :=
  match get options name with
  | none => pure ""
  | some value => wireText (some value)

/-- The type of an input; an input that is no object has none. -/
def inputType (source : Option Value) : Except Refusal String :=
  match source with
  | some (.dict fields) => wireText (get fields "type")
  | _ => pure ""

/-- The structural half of `read_submit`. -/
def readStructure (header : Header) (payload : List UInt8) : Except Refusal Submitted := do
  let fields ← fieldsOf (some (.dict header))
    (envelope ++ identityFields ++ ["job_class", "progress_limit", "options", "input"]) []
  let jobClass ← wireText (get fields "job_class")
  let progressLimit ← wireInt (get fields "progress_limit") maxWireInteger
  let options ← fieldsOf (get fields "options") [] ["language", "voice", "speed_milli"]
  let language ← optionalText options "language"
  let voice ← optionalText options "voice"
  let speedMilli ← wireInt (some ((get options "speed_milli").getD (.int 0))) 0xFFFF
  let type ← inputType (get fields "input")
  match jobInput? type with
  | none => .error .malformed
  | some input => do
    let source ← fieldsOf (get fields "input") (["type", "payload_length"] ++ inputFields input) []
    let length ← wireInt (get source "payload_length") maxWireInteger
    if length ≠ payload.length then .error .malformed
    else do
      let numbers ← readNumbers input source
      let format ← readFormat source
      pure { jobClass := jobClass, progressLimit := progressLimit,
             hasLanguage := (get options "language").isSome,
             hasVoice := (get options "voice").isSome,
             hasSpeed := (get options "speed_milli").isSome, language := language,
             voice := voice, speedMilli := speedMilli, input := input, numbers := numbers,
             format := format }

/-- The language of the options, where the class takes one. -/
def checkLanguage (jobClass : JobClass) (s : Submitted) : Except Refusal Unit :=
  if jobClass = .vadFrames then pure ()
  else do
    require (isLanguage s.language) "language_invalid"
    require (s.language.length ≤ limitLanguageTagMaxBytes) "language_invalid"

/-- The voice and the speed of the options, where the class takes them. -/
def checkVoice (jobClass : JobClass) (s : Submitted) : Except Refusal Unit :=
  if jobClass = .ttsSynthesis then do
    require (isVoice s.voice) "voice_invalid"
    require (s.voice.length ≤ limitVoiceIdMaxBytes) "voice_invalid"
    require (s.speedMilli ≠ 0) "speed_invalid"
  else pure ()

/-- The options the class takes. -/
def checkOptions (jobClass : JobClass) (s : Submitted) : Except Refusal Unit := do
  require (jobClass ≠ .vadFrames || !s.hasLanguage) "option_not_applicable"
  require (jobClass = .ttsSynthesis || !(s.hasVoice || s.hasSpeed)) "option_not_applicable"
  checkLanguage jobClass s
  checkVoice jobClass s

/-- A text, or audio. -/
def checkBody (format : Option AudioFormat) (payload : List UInt8) : Except Refusal Unit :=
  match format with
  | none => do
    require (payload.length ≠ 0) "text_empty"
    require (payload.length ≤ limitTextSegmentMaxBytes) "text_too_large"
    require (isUtf8 payload) "text_invalid_utf8"
  | some format => checkPcm format inputFormat payload.length

/-- The size of audio frames. -/
def checkSize (input : JobInput) (size : ℕ) : Except Refusal Unit :=
  if input = .audioFrames then require (size ≤ limitAudioFramesMaxBytes) "pcm_too_large"
  else pure ()

/-- The frames of a VAD job. -/
def checkFrames (input : JobInput) (numbers : InputNumbers) (size : ℕ) : Except Refusal Unit :=
  if input = .vadFrames then do
    require (1 ≤ numbers.frameCount && numbers.frameCount ≤ limitVadFramesMaxPerJob)
      "vad_frame_count_out_of_range"
    require (size ≤ limitVadFramesMaxBytes) "pcm_too_large"
    require (size = numbers.frameCount * numbers.frameSamples * 2) "vad_frame_bytes_mismatch"
    require (numbers.utteranceId ≠ 0) "utterance_id_zero"
  else pure ()

/-- The payload of the input. -/
def checkPayload (s : Submitted) (payload : List UInt8) : Except Refusal Unit := do
  checkBody s.format payload
  checkSize s.input payload.length
  checkFrames s.input s.numbers payload.length

/-- `read_submit`. -/
def readSubmit (header : Header) (payload : List UInt8) : Except Refusal JobRequest := do
  let s ← readStructure header payload
  let identity ← readIdentity header
  match jobClass? s.jobClass with
  | none => .error (.refused "job_class_unknown")
  | some jobClass => do
    require (s.input = inputOf jobClass) "payload_class_mismatch"
    require (s.progressLimit ≤ limitProgressEventsMax) "progress_limit_too_large"
    checkOptions jobClass s
    checkPayload s payload
    pure { identity := identity, jobClass := jobClass, progressLimit := s.progressLimit,
           payload := payload, language := s.language, voice := s.voice,
           speedMilli := s.speedMilli, startSample := s.numbers.startSample,
           frameSamples := s.numbers.frameSamples, frameCount := s.numbers.frameCount,
           utteranceId := s.numbers.utteranceId }

/-! ## Results and events -/

/-- `WordUnit`. -/
structure WordUnit where
  text : String
  tokenBegin : Value
  tokenEnd : Value
  startSample : Value
  endSample : Value

/-- What a runner returns; an object of another type is `other`. -/
inductive JobResult
  | transcript (text : String) (tokens : List Value) (words : List WordUnit)
  | audioChunk (pcm : List UInt8) (clippedSamples : Value) (format : AudioFormat)
  | vad (probabilities : List Value)
  | other

/-- A word on the wire. -/
structure Word where
  text : String
  tokenBegin : ℕ
  tokenEnd : ℕ
  startSample : ℕ
  endSample : ℕ
  deriving DecidableEq, Repr

/-- A result on the wire, with its payload. -/
inductive Rendered
  | transcript (text : String) (tokens : List ℕ) (words : List Word)
  | audioChunk (format : AudioFormat) (clippedSamples : ℕ) (pcm : List UInt8)
  | vad (probabilities : List ℚ)
  deriving DecidableEq, Repr

/-- The kind of a result. -/
def Rendered.kind : Rendered → ResultKind
  | .transcript .. => .transcript
  | .audioChunk .. => .audioChunk
  | .vad .. => .vad

/-- The UTF-8 length of a text. -/
def utf8Size (text : String) : ℕ := text.utf8ByteSize

/-- What the loop over the words of a transcript carries. -/
structure WordState where
  words : List Word := []
  wordBytes : ℕ := 0
  previousTokenEnd : ℕ := 0
  previousStart : ℕ := 0

/-- One word of `_render_transcript`. -/
def renderWord (tokens : ℕ) (s : WordState) (word : WordUnit) : Except Refusal WordState := do
  require (utf8Size word.text ≠ 0) "word_text_empty"
  let wordBytes := s.wordBytes + utf8Size word.text
  require (wordBytes ≤ limitTranscriptTextMaxBytes) "text_too_large"
  let tokenBegin ← wireInt (some word.tokenBegin) maxWireInteger
  let tokenEnd ← wireInt (some word.tokenEnd) maxWireInteger
  let startSample ← wireInt (some word.startSample) maxWireInteger
  let endSample ← wireInt (some word.endSample) maxWireInteger
  require (tokenBegin < tokenEnd) "word_token_interval_empty"
  require (tokenEnd ≤ tokens) "word_token_interval_out_of_range"
  require (s.previousTokenEnd ≤ tokenBegin) "word_token_interval_overlap"
  require (startSample ≤ endSample) "word_sample_interval_reversed"
  require (s.previousStart ≤ startSample) "word_sample_order"
  pure { words := s.words ++ [⟨word.text, tokenBegin, tokenEnd, startSample, endSample⟩],
         wordBytes := wordBytes, previousTokenEnd := tokenEnd, previousStart := startSample }

/-- `_render_transcript`, of a text without lone surrogates. -/
def renderTranscript (text : String) (tokens : List Value) (words : List WordUnit) :
    Except Refusal Rendered := do
  require (utf8Size text ≤ limitTranscriptTextMaxBytes) "text_too_large"
  let tokens ← tokens.mapM fun token => wireInt (some token) 0xFFFFFFFF
  require (tokens.length ≤ limitTranscriptTokensMax) "token_count_exceeded"
  let s ← words.foldlM (renderWord tokens.length) {}
  pure (.transcript text tokens s.words)

/-- One probability of `render_result`. -/
def renderProbability (value : Value) : Except Refusal ℚ :=
  match value with
  | .int i =>
    if 0 ≤ i ∧ i ≤ 1 then .ok i else .error (.refused "vad_probability_out_of_range")
  | .float (some x) =>
    if 0 ≤ x ∧ x ≤ 1 then .ok x else .error (.refused "vad_probability_out_of_range")
  | .float none => .error (.refused "vad_probability_out_of_range")
  | _ => .error .malformed

/-- `render_result`. -/
def renderResult : JobResult → Except Refusal Rendered
  | .transcript text tokens words => renderTranscript text tokens words
  | .audioChunk pcm clippedSamples format => do
    checkPcm format outputFormat pcm.length
    require (pcm.length ≤ limitAudioChunkMaxBytes) "pcm_too_large"
    let clipped ← wireInt (some clippedSamples) maxWireInteger
    require (clipped ≤ pcm.length / 2) "clipped_samples_out_of_range"
    pure (.audioChunk format clipped pcm)
  | .vad probabilities => do
    require (1 ≤ probabilities.length && probabilities.length ≤ limitVadProbabilitiesMax)
      "vad_probability_count_out_of_range"
    let probabilities ← probabilities.mapM renderProbability
    pure (.vad probabilities)
  | .other => .error .malformed

/-- The wire error object. -/
structure ErrorObject where
  code : ErrorCode
  message : String
  context : Option String
  deriving DecidableEq, Repr

/-- `error_object`. -/
def errorObject (code : ErrorCode) (message : String) (context : Option String) :
    Except Refusal ErrorObject := do
  require (max (utf8Size message) (utf8Size (context.getD "")) ≤ limitErrorTextMaxBytes)
    "error_text_too_large"
  pure ⟨code, message, context⟩

/-- A job message that the sidecar sends. It sends no progress. -/
inductive JobEvent
  | accepted
  | completed (result : Rendered)
  | failed (error : ErrorObject)
  | cancelAcknowledged
  | released
  deriving DecidableEq, Repr

/-! ## The order of one job's messages -/

/-- The text bytes, word text bytes, tokens, PCM bytes and probabilities. -/
structure Totals where
  textBytes : ℕ := 0
  wordBytes : ℕ := 0
  tokens : ℕ := 0
  pcmBytes : ℕ := 0
  probabilities : ℕ := 0
  deriving DecidableEq, Repr

/-- What a result adds. -/
def Rendered.added : Rendered → Totals
  | .transcript text tokens words =>
    { textBytes := utf8Size text, wordBytes := (words.map fun w => utf8Size w.text).sum,
      tokens := tokens.length }
  | .audioChunk _ _ pcm => { pcmBytes := pcm.length }
  | .vad probabilities => { probabilities := probabilities.length }

/-- The totals with what is added. -/
def Totals.add (a b : Totals) : Totals where
  textBytes := a.textBytes + b.textBytes
  wordBytes := a.wordBytes + b.wordBytes
  tokens := a.tokens + b.tokens
  pcmBytes := a.pcmBytes + b.pcmBytes
  probabilities := a.probabilities + b.probabilities

/-- The totals are within the seam's bounds. -/
def Totals.within (t : Totals) : Bool :=
  max t.textBytes t.wordBytes ≤ limitTranscriptTextMaxBytes &&
    t.tokens ≤ limitTranscriptTokensMax && t.pcmBytes ≤ limitAudioChunkMaxBytes

/-- `JobEventSequence`; its count of progress stays zero. -/
structure JobEventSequence where
  identity : JobIdentity
  resultKind : Option ResultKind := none
  progressLimit : ℕ := 0
  vadFrames : ℕ := 0
  cancelRequested : Bool := false
  cancelAcknowledged : Bool := false
  observedAny : Bool := false
  accepted : Bool := false
  terminal : Bool := false
  released : Bool := false
  totals : Totals := {}
  deriving DecidableEq, Repr

namespace JobEventSequence

/-- `for_request`. -/
def forRequest (request : JobRequest) : JobEventSequence where
  identity := request.identity
  resultKind := some (resultKindOf request.jobClass)
  progressLimit := request.progressLimit
  vadFrames := request.frameCount

/-- `note_cancel_requested`. -/
def noteCancelRequested (s : JobEventSequence) : JobEventSequence :=
  { s with cancelRequested := true }

/-- `_with_result`, of a completion. -/
def withResult (s : JobEventSequence) (result : Rendered) : Except Refusal Totals := do
  require s.accepted "not_accepted"
  require (s.resultKind = some result.kind) "result_kind_mismatch"
  let totals := s.totals.add result.added
  require totals.within "result_total_exceeded"
  if s.resultKind = some .vad then
    require (totals.probabilities = s.vadFrames) "vad_result_count_mismatch"
  pure totals

/-- What each kind of message asks of the stream, and the totals behind it. -/
def totalsAfter (s : JobEventSequence) : JobEvent → Except Refusal Totals
  | .accepted => do
    require (!s.observedAny) "accepted_out_of_order"
    pure s.totals
  | .completed result => s.withResult result
  | .failed _ => pure s.totals
  | .cancelAcknowledged => do
    require s.cancelRequested "cancel_acknowledged_without_cancel"
    require (!s.cancelAcknowledged) "duplicate_cancel_acknowledged"
    pure s.totals
  | .released => do
    require s.terminal "released_before_terminal"
    pure s.totals

/-- `observe`. -/
def observe (s : JobEventSequence) (identity : JobIdentity) (event : JobEvent) :
    Except Refusal JobEventSequence := do
  require (identity = s.identity) "identity_mismatch"
  require (!s.released) "event_after_released"
  require (!s.terminal || event = .released) "event_after_terminal"
  let totals ← s.totalsAfter event
  pure { s with
    observedAny := true
    accepted := s.accepted || event = .accepted
    terminal := s.terminal || (match event with | .completed _ | .failed _ => true | _ => false)
    cancelAcknowledged := s.cancelAcknowledged || event = .cancelAcknowledged
    released := event = .released
    totals := totals }

end JobEventSequence

end Sidecar

end Tensorplate
