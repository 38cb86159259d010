import Tensorplate.Core.Transcript
import Tensorplate.Lib.Word
import Tensorplate.Speech.Model.VadPolicy

/-!
# Transcript commitment

`TranscriptCommitment`: the stable prefix of one utterance's transcript
over successive decodes of a window that starts at the ring start. Sample
offsets are 64-bit words, so the sums the source forms with them wrap.
-/

namespace Tensorplate

namespace Serving

open Lib

/-- `AlignedWord`: one aligned word of a decode. -/
structure AlignedWord where
  text : Text
  tokens : List ℕ
  startSample : ℕ
  endSample : ℕ
  deriving DecidableEq

/-- `kCommitTolerance`: 160 ms. -/
def kCommitTolerance : ℕ := 2560

/-- `kCommitGuard`: 320 ms. -/
def kCommitGuard : ℕ := 5120

/-- `kRetainedOverlap`: 1 s. -/
def kRetainedOverlap : ℕ := 16000

/-- `kTranscriptWindow`: 8 s. -/
def kTranscriptWindow : ℕ := 128000

/-- `CommitStep`. -/
structure CommitStep where
  reconciled : Bool := false
  newlyCommitted : ℕ := 0
  deriving DecidableEq, Repr

/-! ## When two words are the same -/

/-- `distance`. -/
def sampleDistance (lhs rhs : ℕ) : ℕ := if lhs > rhs then lhs - rhs else rhs - lhs

/-- `kMarks`, in UTF-8. -/
def kMarks : List Text :=
  [[0xE2, 0x80, 0x9C], [0xE2, 0x80, 0x9D], [0xC2, 0xBF], [0xE3, 0x80, 0x82], [0xEF, 0xBC, 0x8C],
   [0xEF, 0xBC, 0x81], [0xEF, 0xBC, 0x9F], [0xEF, 0xBC, 0x9A], [0xE3, 0x80, 0x81],
   [0xE2, 0x80, 0xA6], [0xD8, 0x8C], [0xD8, 0x9B], [0xD8, 0x9F], [0xDB, 0x94], [0xC2, 0xA0]]

/-- `ascii_space_or_mark`. -/
def asciiSpaceOrMark (c : UInt8) : Bool :=
  c == 0x20 || (0x09 ≤ c && c ≤ 0x0D) || (0x21 ≤ c && c ≤ 0x2F) || (0x3A ≤ c && c ≤ 0x40) ||
    (0x5B ≤ c && c ≤ 0x60) || (0x7B ≤ c && c ≤ 0x7E)

/-- One step of the inner loop of `body`: a mark at either end. -/
def trimMark (state : Text × Bool) (mark : Text) : Text × Bool :=
  if mark.isPrefixOf state.1 then (state.1.drop mark.length, true)
  else if mark.isSuffixOf state.1 then (state.1.take (state.1.length - mark.length), true)
  else state

/-- One pass of the outer loop of `body`, and whether it trimmed anything. -/
def trimOnce (text : Text) : Text × Bool :=
  let state :=
    if (text.head?.any asciiSpaceOrMark) then (text.drop 1, true)
    else if (text.getLast?.any asciiSpaceOrMark) then (text.dropLast, true)
    else (text, false)
  kMarks.foldl trimMark state

/-- The outer loop of `body`. A pass that trims shortens the text, so as
many passes as the text has bytes are enough. -/
def bodyLoop : ℕ → Text → Text
  | 0, text => text
  | passes + 1, text =>
    if text.isEmpty then text
    else
      match trimOnce text with
      | (text, true) => bodyLoop passes text
      | (text, false) => text

/-- `body`: the word without the spaces and marks around it. -/
def wordBody (text : Text) : Text := bodyLoop text.length text

/-- The second byte of Arabic tatweel or of a short-vowel mark. -/
def isArabicMark (next : UInt8) : Bool := next == 0x80 || (0x8B ≤ next && next ≤ 0x92)

/-- ASCII lower case. -/
def lowerAscii (byte : UInt8) : UInt8 := if 65 ≤ byte && byte ≤ 90 then byte - 65 + 97 else byte

/-- The loop of `normalized`. -/
def normalizedBytes : Text → Text
  | [] => []
  | [byte] => [lowerAscii byte]
  | byte :: next :: rest =>
    if byte == 0xD9 && isArabicMark next then normalizedBytes rest
    else lowerAscii byte :: normalizedBytes (next :: rest)

/-- `normalized`: the word as anchors compare it. -/
def normalizedText (text : Text) : Text := normalizedBytes (wordBody text)

/-- `same_body`. -/
def sameBody (lhs rhs : Text) : Bool := normalizedText lhs == normalizedText rhs

/-- `repeats`. -/
def AlignedWord.repeats (committed word : AlignedWord) : Bool :=
  sameBody committed.text word.text &&
    sampleDistance committed.endSample word.endSample ≤ kCommitTolerance

/-! ## The commitment -/

/-- `TranscriptCommitment::Snapshot`: the uncommitted words of a
reconciled decode. -/
structure Snapshot where
  words : List AlignedWord := []
  stop : ℕ := 0
  deriving DecidableEq

/-- `TranscriptCommitment`. -/
structure TranscriptCommitment where
  agreement : ℕ
  committed : List AlignedWord := []
  ringIndex : ℕ := 0
  ringStart : ℕ
  history : List Snapshot := [{}]
  observedEnd : ℕ := 0
  deriving DecidableEq

namespace TranscriptCommitment

/-- The commitment of a profile for an utterance from `utteranceStart`. -/
def ofProfile (profile : VadProfile) (utteranceStart : ℕ) : TranscriptCommitment where
  agreement := profile.commitAgreement
  ringStart := utteranceStart

/-- `caller_defect` of this unit. -/
def defect (message context : String) : Error := Error.make .internal message context

/-- The loop of `words_of`. -/
def wordsLoop (windowEnd : ℕ) (tokens : List ℕ) (previousStart previousToken : ℕ) :
    List WordUnit → Except Error (List AlignedWord)
  | [] => .ok []
  | word :: rest =>
    if word.startSample < previousStart || word.endSample < word.startSample ||
        word.endSample > windowEnd || word.tokenBegin < previousToken ||
        word.tokenEnd ≤ word.tokenBegin || word.tokenEnd > tokens.length then
      .error (defect "a decode's words do not lie in order inside its window"
        "invalid_transcript_snapshot")
    else
      match wordsLoop windowEnd tokens word.startSample word.tokenEnd rest with
      | .error refusal => .error refusal
      | .ok words =>
        .ok (⟨word.text, (tokens.drop word.tokenBegin).take (word.tokenEnd - word.tokenBegin),
          word.startSample, word.endSample⟩ :: words)

/-- `words_of`. -/
def wordsOf (c : TranscriptCommitment) (windowStart windowEnd minEnd : ℕ)
    (result : TranscriptResult) : Except Error (List AlignedWord) :=
  if windowStart ≠ c.ringStart || windowEnd ≤ windowStart || windowEnd < minEnd then
    .error (defect "a decode's window is not the one the ring holds" "commitment_window_mismatch")
  else wordsLoop windowEnd result.tokens windowStart 0 result.words

/-- The committed words after the ring start. -/
def anchors (c : TranscriptCommitment) : List AlignedWord := c.committed.drop c.ringIndex

/-- The loop of `anchored`: the words after those that repeat the anchors,
one to one. -/
def repeatsLoop : List AlignedWord → List AlignedWord → Option ℕ
  | [], _ => some 0
  | _ :: _, [] => none
  | anchor :: anchors, word :: words =>
    if anchor.repeats word then (repeatsLoop anchors words).map (· + 1) else none

/-- Whether the first word is the one that ends at the ring start, heard
again at the window's start. -/
def heardAgain (c : TranscriptCommitment) (words : List AlignedWord) : Bool :=
  match words, c.committed[c.ringIndex - 1]? with
  | first :: _, some before =>
    c.ringIndex > 0 && first.endSample ≤ add64 c.ringStart kCommitTolerance &&
      sameBody first.text before.text
  | _, _ => false

/-- `anchored`. -/
def anchored (c : TranscriptCommitment) (words : List AlignedWord) : Option ℕ :=
  if c.heardAgain words then
    match c.anchors, words with
    | anchor :: _, first :: rest =>
      -- A word that could be either is ambiguous.
      if anchor.repeats first then none else (repeatsLoop c.anchors rest).map (· + 1)
    -- advance_ring() always leaves a committed word after the ring start.
    | _, _ => none
  else repeatsLoop c.anchors words

/-- The extremes of the starts and ends `settled` has met. -/
structure Extremes where
  firstStart : ℕ
  lastStart : ℕ
  firstEnd : ℕ
  lastEnd : ℕ

/-- The loop of `settled` over the earlier decodes. -/
def settledLoop (index : ℕ) (word : AlignedWord) (e : Extremes) : List Snapshot → Option Extremes
  | [] => some e
  | snapshot :: rest =>
    match snapshot.words[index]? with
    | none => none
    | some earlier =>
      if !sameBody earlier.text word.text || earlier.tokens ≠ word.tokens then none
      else settledLoop index word ⟨min e.firstStart earlier.startSample,
        max e.lastStart earlier.startSample, min e.firstEnd earlier.endSample,
        max e.lastEnd earlier.endSample⟩ rest

/-- `settled`: whether `word`, uncommitted word `index` of a decode, may
commit. -/
def settled (c : TranscriptCommitment) (index : ℕ) (word : AlignedWord) : Bool :=
  match settledLoop index word
      ⟨word.startSample, word.startSample, word.endSample, word.endSample⟩ c.history with
  | none => false
  | some e =>
    -- Every decode holds audio up to the oldest one's end.
    e.lastStart - e.firstStart ≤ kCommitTolerance && e.lastEnd - e.firstEnd ≤ kCommitTolerance &&
      (c.history.head?.any fun oldest => add64 e.lastEnd kCommitGuard ≤ oldest.stop)

/-- The loop of `observe` that counts the settled words from `index` on. -/
def stableFrom (c : TranscriptCommitment) (index : ℕ) : List AlignedWord → ℕ
  | [] => 0
  | word :: rest => if c.settled index word then c.stableFrom (index + 1) rest + 1 else 0

/-- The loop of `advance_ring`: how many of the words end by `latest`. -/
def endedBy (latest : ℕ) (words : List AlignedWord) : ℕ :=
  (words.takeWhile fun word => word.endSample ≤ latest).length

/-- `advance_ring`. -/
def advanceRing (c : TranscriptCommitment) : TranscriptCommitment :=
  match c.committed.getLast? with
  | none => c
  | some back =>
    if back.endSample < add64 c.ringStart kRetainedOverlap then c
    else
      let latest := sub64 back.endSample kRetainedOverlap
      let index := c.ringIndex + endedBy latest c.anchors
      if index > c.ringIndex then
        match c.committed[index - 1]? with
        | none => c
        | some word => { c with ringIndex := index, ringStart := word.endSample }
      else c

/-- What `observe` does with the words of a reconciled decode after those
that repeat committed ones. -/
def commit (c : TranscriptCommitment) (windowEnd : ℕ) (words : List AlignedWord) :
    TranscriptCommitment × CommitStep :=
  let stable := c.stableFrom 0 words
  let history := c.history.map fun snapshot => { snapshot with words := snapshot.words.drop stable }
  let history := if history.length + 1 = c.agreement then history.drop 1 else history
  ({ c with
      committed := c.committed ++ words.take stable
      history := history ++ [Snapshot.mk (words.drop stable) windowEnd] }.advanceRing, ⟨true, stable⟩)

/-- `observe`. -/
def observe (c : TranscriptCommitment) (windowStart windowEnd : ℕ) (result : TranscriptResult) :
    TranscriptCommitment × Except Error CommitStep :=
  match c.wordsOf windowStart windowEnd (add64 c.observedEnd 1) result with
  | .error refusal => (c, .error refusal)
  | .ok words =>
    let c := { c with observedEnd := windowEnd }
    match c.anchored words with
    | none => (c, .ok {})
    | some anchors =>
      let (c, step) := c.commit windowEnd (words.drop anchors)
      (c, .ok step)

/-- `reset`. -/
def reset (c : TranscriptCommitment) (utteranceStart : ℕ) : TranscriptCommitment where
  agreement := c.agreement
  ringStart := utteranceStart

/-- `admit`: whether the ring may take audio up to `last`. -/
def admits (c : TranscriptCommitment) (last : ℕ) : Except Error Unit :=
  if last > c.ringStart && last - c.ringStart > kTranscriptWindow then
    .error (Error.make .resourceExhausted "the transcript did not stabilize within its window"
      "unstable_transcript_window")
  else .ok ()

/-- `finalize`. -/
def finalize (c : TranscriptCommitment) (windowStart windowEnd : ℕ) (tail : TranscriptResult) :
    Except Error (List AlignedWord) :=
  match c.wordsOf windowStart windowEnd c.observedEnd tail with
  | .error refusal => .error refusal
  | .ok words =>
    match c.anchored words with
    | none => .error (Error.make .inferenceFailed
        "the final decode does not repeat the committed words" "ambiguous_final_overlap")
    | some anchors => .ok (c.committed ++ words.drop anchors)

end TranscriptCommitment

end Serving

end Tensorplate
