import Tensorplate.Core.Job

/-!
# Transcripts

`TranscriptResult`, what a decode job ends with, and what
`JobResult::create` asks of one. No bound is put on the samples a word
names but their order.
-/

namespace Tensorplate

def kMaxTranscriptTextBytes : ℕ := 8192

def kMaxTranscriptTokens : ℕ := 448

/-- `WordUnit`: one aligned word of a transcript. -/
structure WordUnit where
  text : Text
  tokenBegin : ℕ
  tokenEnd : ℕ
  startSample : ℕ
  endSample : ℕ
  deriving DecidableEq

/-- `TranscriptResult`. -/
structure TranscriptResult where
  text : Text
  tokens : List ℕ
  words : List WordUnit
  deriving DecidableEq

namespace TranscriptResult

/-- The loop of `validate` over the words, after words of `textBytes`
bytes in all whose last token and start were the two given. -/
def validateWords (tokens textBytes previousTokenEnd previousStart : ℕ) :
    List WordUnit → Except Error Unit
  | [] => .ok ()
  | word :: rest =>
    if word.text.isEmpty then
      JobRequest.invalid "word_text_empty" "WordUnit text must not be empty"
    else if !JobRequest.isWellFormedUtf8 word.text then
      JobRequest.invalid "text_invalid_utf8" "WordUnit text is not well-formed UTF-8"
    else if textBytes + word.text.length > kMaxTranscriptTextBytes then
      JobRequest.invalid "text_too_large" "WordUnit texts exceed 8192 bytes"
    else if word.tokenBegin ≥ word.tokenEnd then
      JobRequest.invalid "word_token_interval_empty" "WordUnit token interval is empty"
    else if word.tokenEnd > tokens then
      JobRequest.invalid "word_token_interval_out_of_range"
        "WordUnit token interval exceeds the tokens"
    else if word.tokenBegin < previousTokenEnd then
      JobRequest.invalid "word_token_interval_overlap"
        "WordUnit token intervals overlap or are out of order"
    else if word.startSample > word.endSample then
      JobRequest.invalid "word_sample_interval_reversed" "WordUnit start_sample exceeds end_sample"
    else if word.startSample < previousStart then
      JobRequest.invalid "word_sample_order" "WordUnit starts before the previous word's start"
    else validateWords tokens (textBytes + word.text.length) word.tokenEnd word.startSample rest

/-- `validate` of a transcript, by which `JobResult::create` judges it. -/
def validate (transcript : TranscriptResult) : Except Error Unit :=
  if transcript.text.length > kMaxTranscriptTextBytes then
    JobRequest.invalid "text_too_large" "TranscriptResult text exceeds 8192 bytes"
  else if !JobRequest.isWellFormedUtf8 transcript.text then
    JobRequest.invalid "text_invalid_utf8" "TranscriptResult text is not well-formed UTF-8"
  else if transcript.tokens.length > kMaxTranscriptTokens then
    JobRequest.invalid "token_count_exceeded" "TranscriptResult has more than 448 tokens"
  else validateWords transcript.tokens.length 0 0 0 transcript.words

end TranscriptResult

end Tensorplate
