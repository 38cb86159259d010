import Tensorplate.Core.Job
import Tensorplate.Session.Model.OutputQueue

/-!
# What a session carries

The terms a session is granted and the task output the dispatch queues
for it, with what each item is charged (`dispatch.hpp`, `dispatch.cpp`).
-/

namespace Tensorplate

namespace Serving

open Lib

/-- `StreamAudioEncoding`. -/
inductive StreamAudioEncoding
  | pcmS16Le
  | mulaw
  deriving DecidableEq, Repr

/-- `StreamAudioFormat`. -/
structure StreamAudioFormat where
  encoding : StreamAudioEncoding
  sampleRateHz : ℕ
  channels : ℕ
  deriving DecidableEq, Repr

namespace StreamAudioFormat

/-- `bytes_per_sample`. -/
def bytesPerSample (format : StreamAudioFormat) : ℕ :=
  if format.encoding = .pcmS16Le then 2 else 1

/-- `bytes_per_second`. -/
def bytesPerSecond (format : StreamAudioFormat) : ℕ :=
  format.sampleRateHz * format.channels * format.bytesPerSample

end StreamAudioFormat

/-- `SessionRequest`. -/
structure SessionRequest where
  inputKind : SessionInputKind
  language : Text
  voice : Text
  inputFormat : StreamAudioFormat
  deriving DecidableEq, Repr

/-- `SessionTerms`; durations are in milliseconds. -/
structure SessionTerms where
  inputKind : SessionInputKind
  language : Text
  voice : Text := []
  audioFormat : StreamAudioFormat
  minFrame : ℕ := 0
  maxFrame : ℕ := 0
  maxUtterance : ℕ := 0
  maxSegmentTextBytes : ℕ := 0
  maxSegmentAudio : ℕ := 0
  maxSynthesisTextBytes : ℕ := 0
  maxSynthesisAudio : ℕ := 0
  deriving DecidableEq, Repr

/-- `budgets_for`. -/
def budgetsFor (terms : SessionTerms) : Except Error SessionBudgets :=
  let rate := terms.audioFormat.bytesPerSecond
  if terms.inputKind = .audio then SessionBudgets.forAudioInput rate
  else SessionBudgets.forTextInput rate

/-- `EndpointReason`. -/
inductive EndpointReason
  | silence
  | clientFinalize
  | durationLimit
  | halfClose
  deriving DecidableEq, Repr

/-- `TranscriptSegment`. -/
structure TranscriptSegment where
  startUs : ℕ
  endUs : ℕ
  text : Text
  deriving DecidableEq, Repr

/-- `TaskOutput`, one constructor per alternative. -/
inductive TaskOutput
  | endpointDetected (utteranceId endSampleOffset : ℕ) (reason : EndpointReason)
  | finalTranscript (utteranceId : ℕ) (segments : List TranscriptSegment)
      (endSampleOffset finalizeSequence : ℕ)
  | audioChunk (segmentId chunkIndex segmentSampleOffset : ℕ) (pcm : Bytes)
  | segmentCompleted (segmentId totalSamples chunkCount : ℕ)
  | synthesisCompleted (segmentCount totalSamples finalizeSequence : ℕ)
  | partialTranscript (utteranceId revision : ℕ) (text : Text)
  deriving DecidableEq

/-- What a stream's queue carries: the dispatch's task output, and the
binding's own lifecycle messages, which the dispatch never looks at. -/
inductive OutputBody
  | task (output : TaskOutput)
  | lifecycle
  deriving DecidableEq

def kTaskOutputMessageUnits : ℕ := 48

def kTaskOutputSegmentUnits : ℕ := 32

/-- `kAudioChunkDuration`, in milliseconds. -/
def kAudioChunkDuration : ℕ := 20

/-- `charge_of`: an item's kind, bytes and key. -/
def chargeOf : TaskOutput → OutputKind × ℕ × ℕ
  -- A final supersedes the unsent partial of its utterance.
  | .finalTranscript utteranceId segments _ _ =>
    (.result, segments.foldl (fun bytes segment =>
      bytes + (kTaskOutputSegmentUnits + segment.text.length)) kTaskOutputMessageUnits,
      utteranceId)
  | .partialTranscript utteranceId _ text =>
    (.partialText, kTaskOutputMessageUnits + text.length, utteranceId)
  | .audioChunk _ _ _ pcm => (.audio, pcm.size, 0)
  | _ => (.result, kTaskOutputMessageUnits, 0)

/-- `make_task_output_item`. -/
def makeTaskOutputItem (output : TaskOutput) : OutputItem OutputBody :=
  let (kind, bytes, replaceKey) := chargeOf output
  ⟨kind, bytes, replaceKey, some (.task output)⟩

end Serving

end Tensorplate
