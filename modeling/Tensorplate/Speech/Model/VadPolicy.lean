import Tensorplate.Core.Job
import Tensorplate.Lib.Word

/-!
# Voice detection

`VadPolicy`: onset and endpoint detection over one session's frame
probabilities, `WindowScheduler`: when its open utterance is due a partial
decode, and the mapping of internal sample intervals onto the wire.
Offsets are absolute samples of the 16 kHz internal timeline.
-/

namespace Tensorplate

namespace Serving

open Lib

/-- `VadProfile`; durations are in milliseconds. -/
structure VadProfile where
  threshold : ℚ := 1 / 2
  minSpeech : ℕ := 64
  silenceEndpoint : ℕ := 320
  leadingPadding : ℕ := 160
  initialAccumulation : ℕ := 320
  decodeStride : ℕ := 160
  endpointRetention : ℕ := 1000
  maxUtterance : ℕ := 30000
  frameSamples : ℕ := 512
  commitAgreement : ℕ := 3

/-- `kSamplesPerMs`. -/
def kSamplesPerMs : ℕ := kJobInputSampleRateHz / 1000

/-- `kMaxUtterance`, in milliseconds: the longest one job's input holds. -/
def kMaxUtterance : ℕ := kMaxAudioFramesBytes / 2 / kSamplesPerMs

def kMaxFrameSamples : ℕ := kMaxVadFramesBytes / 2

def kMicrosecondsPerSecond : ℕ := 1000000

def kTelephonyInputRateHz : ℕ := 8000

/-- `samples`. -/
def samplesOf (duration : ℕ) : ℕ := duration * kSamplesPerMs

/-- `whole_frames`. -/
def wholeFrames (duration frameSamples : ℕ) : ℕ :=
  (samplesOf duration + frameSamples - 1) / frameSamples

/-- `caller_defect` of this unit. -/
def vadDefect (message context : String) : Error := Error.make .internal message context

/-- `overflow`. -/
def sampleOverflow : Error := vadDefect "sample offset out of range" "sample_offset_overflow"

/-- `VadFrameOutcome`. -/
structure VadFrameOutcome where
  durationSplit : Option ℕ := none
  onset : Option ℕ := none
  silenceEndpoint : Option ℕ := none
  deriving DecidableEq, Repr

/-- `VadPolicy`. -/
structure VadPolicy where
  profile : VadProfile
  minSpeechFrames : ℕ
  silenceFrames : ℕ
  leadingPadding : ℕ
  maxUtterance : ℕ
  nextFrame : ℕ := 0
  floor : ℕ := 0
  utteranceStart : Option ℕ := none
  speechStart : ℕ := 0
  runFrames : ℕ := 0
  runStart : ℕ := 0

namespace VadPolicy

/-- `invalid_profile`. -/
def invalidProfile : Error :=
  Error.make .configInvalid "invalid voice detection profile" "invalid_vad_profile"

/-- `VadPolicy::create`. -/
def create (profile : VadProfile) : Except Error VadPolicy :=
  if profile.threshold ≤ 0 ∨ profile.threshold > 1 then .error invalidProfile
  else if profile.frameSamples = 0 ∨ profile.frameSamples > kMaxFrameSamples then
    .error invalidProfile
  else if profile.commitAgreement < 2 then .error invalidProfile
  else if profile.maxUtterance > kMaxUtterance then .error invalidProfile
  else if [profile.minSpeech, profile.silenceEndpoint, profile.leadingPadding,
      profile.initialAccumulation, profile.decodeStride, profile.endpointRetention].any
      fun duration => duration == 0 || duration > profile.maxUtterance then
    .error invalidProfile
  else
    let minSpeechFrames := wholeFrames profile.minSpeech profile.frameSamples
    -- An onset and a split never share a frame, and a frame splits at most once.
    if samplesOf profile.leadingPadding + minSpeechFrames * profile.frameSamples ≥
        samplesOf profile.maxUtterance then
      .error invalidProfile
    else
      .ok {
        profile := profile
        minSpeechFrames := minSpeechFrames
        silenceFrames := wholeFrames profile.silenceEndpoint profile.frameSamples
        leadingPadding := samplesOf profile.leadingPadding
        maxUtterance := samplesOf profile.maxUtterance }

/-- `padded`: an onset's start for a speech run from `runStart`. -/
def padded (p : VadPolicy) (runStart : ℕ) : ℕ :=
  if runStart - p.floor > p.leadingPadding then runStart - p.leadingPadding else p.floor

/-- `in_silence`. -/
def inSilence (p : VadPolicy) (speech : Bool) (frameStart : ℕ) : VadPolicy × VadFrameOutcome :=
  if !speech then ({ p with runFrames := 0 }, {})
  else
    let runStart := if p.runFrames = 0 then frameStart else p.runStart
    let runFrames := p.runFrames + 1
    if runFrames < p.minSpeechFrames then
      ({ p with runFrames := runFrames, runStart := runStart }, {})
    else
      let start := p.padded runStart
      ({ p with
          utteranceStart := some start
          speechStart := runStart
          runFrames := 0
          runStart := runStart }, { onset := some start })

/-- `in_speech`. -/
def inSpeech (p : VadPolicy) (speech : Bool) (start : ℕ) : VadPolicy × VadFrameOutcome :=
  let runFrames := if speech then 0 else p.runFrames + 1
  let silenceEnded := decide (runFrames ≥ p.silenceFrames)
  let p := { p with runFrames := runFrames }
  -- At exactly max_utterance a silence endpoint ends the utterance instead.
  let (p, split) :=
    if p.nextFrame - start > p.maxUtterance ∨
        (p.nextFrame - start = p.maxUtterance ∧ !silenceEnded) then
      ({ p with
          utteranceStart := some (start + p.maxUtterance)
          speechStart := start + p.maxUtterance }, some (start + p.maxUtterance))
    else (p, none)
  if silenceEnded then
    ({ p with utteranceStart := none, floor := p.nextFrame, runFrames := 0 },
      { durationSplit := split, silenceEndpoint := some p.nextFrame })
  else (p, { durationSplit := split })

/-- `observe`. -/
def observe (p : VadPolicy) (probability : Option ℚ) :
    VadPolicy × Except Error VadFrameOutcome :=
  match probability with
  | none => (p, .error outOfRange)
  | some probability =>
    if probability < 0 ∨ probability > 1 then (p, .error outOfRange)
    else
      let frameStart := p.nextFrame
      if frameStart > word64 - 1 - p.profile.frameSamples then (p, .error sampleOverflow)
      else
        let p := { p with nextFrame := frameStart + p.profile.frameSamples }
        let speech := decide (probability ≥ p.profile.threshold)
        let (p, outcome) := match p.utteranceStart with
          | some start => p.inSpeech speech start
          | none => p.inSilence speech frameStart
        (p, .ok outcome)
where
  outOfRange : Error :=
    vadDefect "voice activity probability out of range" "vad_probability_out_of_range"

/-- `reset`. -/
def reset (p : VadPolicy) (last : ℕ) : VadPolicy × Except Error Unit :=
  if last < p.nextFrame then
    (p, .error (vadDefect "utterance end before observed audio"
      "vad_reset_before_observed_audio"))
  else
    ({ p with nextFrame := last, floor := last, utteranceStart := none, runFrames := 0 }, .ok ())

/-- `next_frame_start`. -/
def nextFrameStart (p : VadPolicy) : ℕ := p.nextFrame

/-- `speech_end`. -/
def speechEnd (p : VadPolicy) : Option ℕ :=
  if p.utteranceStart.isSome then some (p.nextFrame - p.runFrames * p.profile.frameSamples)
  else none

/-- `earliest_utterance_start`. -/
def earliestUtteranceStart (p : VadPolicy) : ℕ :=
  match p.utteranceStart with
  | some start => start
  -- A speech run under way starts the onset; otherwise the next frame does.
  | none => p.padded (if p.runFrames > 0 then p.runStart else p.nextFrame)

/-- `silence_run_samples`. -/
def silenceRunSamples (p : VadPolicy) : ℕ := p.silenceFrames * p.profile.frameSamples

end VadPolicy

/-! ## Partial decode windows -/

/-- `SampleWindow`. -/
structure SampleWindow where
  first : ℕ
  last : ℕ
  deriving DecidableEq, Repr

/-- `WindowScheduler`. -/
structure WindowScheduler where
  accumulation : ℕ
  stride : ℕ
  isOpen : Bool := false
  first : ℕ := 0
  speechStart : ℕ := 0
  lastEnd : Option ℕ := none
  askedAt : Option ℕ := none
  askedBefore : Option ℕ := none
  deriving DecidableEq, Repr

namespace WindowScheduler

/-- The scheduler of a profile. -/
def ofProfile (profile : VadProfile) : WindowScheduler where
  accumulation := samplesOf profile.initialAccumulation
  stride := samplesOf profile.decodeStride

/-- `open`. -/
def openAt (s : WindowScheduler) (first speechStart : ℕ) : WindowScheduler :=
  { s with
    isOpen := true
    first := first
    speechStart := speechStart
    lastEnd := none
    askedAt := none
    askedBefore := none }

/-- `close`. -/
def close (s : WindowScheduler) : WindowScheduler := { s with isOpen := false }

/-- `due`. -/
def due (s : WindowScheduler) (scoredEnd : ℕ) : Option SampleWindow :=
  if !s.isOpen || scoredEnd < s.speechStart + s.accumulation ||
      (s.lastEnd.any fun lastEnd => scoredEnd < lastEnd + s.stride) then
    none
  else some ⟨s.first, scoredEnd⟩

/-- `started`. -/
def started (s : WindowScheduler) (last : ℕ) : WindowScheduler :=
  { s with lastEnd := some last, askedAt := none, askedBefore := none }

/-- `waits`, which records the asking. -/
def waits (s : WindowScheduler) (scoredEnd speechEnd : ℕ) : WindowScheduler × Bool :=
  let s := if s.askedAt ≠ some scoredEnd then
      { s with askedBefore := s.askedAt, askedAt := some scoredEnd }
    else s
  (s, speechEnd < scoredEnd && !(s.askedBefore.any fun before => speechEnd > before))

end WindowScheduler

/-! ## The wire -/

/-- `MicrosecondInterval`. -/
structure MicrosecondInterval where
  startUs : ℕ
  endUs : ℕ
  deriving DecidableEq, Repr

/-- `WireInterval`. -/
structure WireInterval where
  endSampleOffset : ℕ
  time : MicrosecondInterval
  deriving DecidableEq, Repr

/-- `scale_up`: `ceil(value * numerator / denominator)`, refusing overflow. -/
def scaleUp (value numerator denominator : ℕ) : Except Error ℕ :=
  if value > (word64 - 1) / numerator then .error sampleOverflow
  else
    let product := value * numerator
    .ok (product / denominator + if product % denominator ≠ 0 then 1 else 0)

/-- `to_input_samples`. -/
def toInputSamples (internalEnd inputRateHz : ℕ) : Except Error ℕ :=
  if inputRateHz ≠ kTelephonyInputRateHz ∧ inputRateHz ≠ kJobInputSampleRateHz then
    .error (vadDefect "input rate has no internal mapping" "unsupported_input_rate")
  else scaleUp internalEnd inputRateHz kJobInputSampleRateHz

/-- `to_microseconds`. -/
def toMicroseconds (internalStart internalEnd : ℕ) : Except Error MicrosecondInterval :=
  if internalStart > internalEnd then
    .error (vadDefect "interval ends before it starts" "interval_out_of_order")
  else
    match scaleUp internalEnd kMicrosecondsPerSecond kJobInputSampleRateHz with
    | .error refusal => .error refusal
    -- The start is not past the end, so its product fits too.
    | .ok last => .ok ⟨internalStart * kMicrosecondsPerSecond / kJobInputSampleRateHz, last⟩

/-- `to_wire`. -/
def toWire (internalStart internalEnd inputSamples inputRateHz : ℕ) : Except Error WireInterval :=
  match toInputSamples internalEnd inputRateHz with
  | .error refusal => .error refusal
  | .ok last =>
    -- ceil(b * R / 16,000) <= N exactly when b <= N * 16,000 / R.
    if last > inputSamples then
      .error (vadDefect "interval ends past the accepted input" "interval_out_of_range")
    else
      match toMicroseconds internalStart internalEnd with
      | .error refusal => .error refusal
      | .ok time => .ok ⟨last, time⟩

end Serving

end Tensorplate
