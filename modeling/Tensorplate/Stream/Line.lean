import Tensorplate.Lib.Pool
import Tensorplate.Session.OutputOrder
import Tensorplate.Stream.Model.Output

/-!
# The line of a call

The log of a call, as far as the wire sees it, is the deliveries of the
items taken one after another, then what is in hand of the next one, then
the end. What is in hand is held by one caller or by the transport, so no
second write can be decided; the end is decided once nothing is in hand.
-/

namespace Tensorplate

namespace Stream

open Serving Lib

variable {ι : Type}

/-! ## The events of the items taken -/

/-- The samples an item adds to the totals. -/
def samplesOf (format : StreamAudioFormat) (x : SequencedOutput (Body ι)) : ℕ :=
  match x.item.body with
  | some (.task (.audioChunk _ _ _ pcm)) => pcm.size / (format.bytesPerSample * format.channels)
  | _ => 0

/-- Whether an item is the final transcript of an utterance. -/
def isFinal (x : SequencedOutput (Body ι)) : Bool :=
  match x.item.body with
  | some (.task (.finalTranscript _ _ _ _)) => true
  | _ => false

/-- Whether an item completes a segment. -/
def isSegmentCompletion (x : SequencedOutput (Body ι)) : Bool :=
  match x.item.body with
  | some (.task (.segmentCompleted _ _ _)) => true
  | _ => false

/-- The totals of the items taken, in the widths of the wire. -/
def totalsOf (format : StreamAudioFormat) (items : List (SequencedOutput (Body ι)))
    (totals : SessionTotals) : SessionTotals :=
  { totals with
    outputAudioSamples := (items.map (samplesOf format)).sum % 2 ^ 64
    utterancesCompleted := items.countP isFinal % 2 ^ 32
    segmentsCompleted := items.countP isSegmentCompletion % 2 ^ 32 }

/-- Whether an item can be sent. -/
def sendable (x : SequencedOutput (Body ι)) : Bool :=
  match x.item.body with
  | some (.wireEvent _) | some (.task _) => true
  | _ => false

/-- **What an item taken behind others is sent as.** A closed session
carries the totals of the items before it. -/
def bodyOf (format : StreamAudioFormat) (before : List (SequencedOutput (Body ι)))
    (x : SequencedOutput (Body ι)) : EventBody ι :=
  match x.item.body with
  | some (.wireEvent (.sessionClosed content totals)) =>
    .sessionClosed content (totalsOf format before totals)
  | some (.wireEvent event) => event
  | some (.task output) => taskEvent output format
  | _ => .notSet

/-- The event of an item, under the sequence it was taken with. -/
def eventOf (format : StreamAudioFormat) (before : List (SequencedOutput (Body ι)))
    (x : SequencedOutput (Body ι)) : ServerEvent ι :=
  ⟨x.sequence, bodyOf format before x⟩

/-- **A delivery**: an item is taken, written and answered, its delivery
confirmed to the queue and told to the callback, if there is one. -/
def delivery (hears : Bool) (format : StreamAudioFormat)
    (before : List (SequencedOutput (Body ι))) (x : SequencedOutput (Body ι)) : List (Event ι) :=
  [.taken x, .written (eventOf format before x), .answered true, .confirmed x.sequence] ++
    if hears then [.told x.item.kind] else []

/-- The deliveries of items taken behind others. -/
def deliveries (hears : Bool) (format : StreamAudioFormat) :
    List (SequencedOutput (Body ι)) → List (SequencedOutput (Body ι)) → List (Event ι)
  | _, [] => []
  | before, x :: rest =>
    delivery hears format before x ++ deliveries hears format (before ++ [x]) rest

theorem deliveries_concat (hears : Bool) (format : StreamAudioFormat)
    (x : SequencedOutput (Body ι)) : ∀ (items before : List (SequencedOutput (Body ι))),
    deliveries hears format before (items ++ [x]) =
      deliveries hears format before items ++ delivery hears format (before ++ items) x := by
  intro items
  induction items with
  | nil =>
    intro before
    simp [deliveries]
  | cons y rest ih =>
    intro before
    rw [List.cons_append, deliveries, deliveries, ih, List.append_assoc]
    simp

/-! ## The item in hand and the end -/

/-- How far the item in hand has come. -/
inductive Stage
  /-- To be written by the caller that took it. -/
  | decided
  /-- With the transport. -/
  | out
  | answering (ok : Bool) (now : TimePoint)
  | telling (now : TimePoint)
  | settling (now : TimePoint)
  /-- Its write failed. -/
  | failTelling (now : TimePoint)
  | failSettling (now : TimePoint)
  | failed
  /-- It could not be sent. -/
  | unsendable

namespace Stage

/-- What is seen of an item so far. -/
def events (hears : Bool) (format : StreamAudioFormat) (before : List (SequencedOutput (Body ι)))
    (x : SequencedOutput (Body ι)) : Stage → List (Event ι)
  | decided | unsendable => [.taken x]
  | out => [.taken x, .written (eventOf format before x)]
  | answering ok _ => [.taken x, .written (eventOf format before x), .answered ok]
  | telling _ =>
    [.taken x, .written (eventOf format before x), .answered true, .confirmed x.sequence]
  | settling _ => delivery hears format before x
  | failTelling _ | failSettling _ | failed =>
    [.taken x, .written (eventOf format before x), .answered false]

/-- The caller that has the item in hand. -/
def holders (kind : OutputKind) : Stage → List Thread
  | decided => [.running .write]
  | answering ok now => [.answering ok now]
  | telling now => [.telling true now kind true]
  | settling now => [.settling true now kind]
  | failTelling now => [.telling false now kind false]
  | failSettling now => [.settling false now kind]
  | out | failed | unsendable => []

/-- Whether the transport has the item in hand. -/
def sent : Stage → ℕ
  | out => 1
  | _ => 0

/-- Whether nothing will be done with the item any more. -/
def dead : Stage → Bool
  | failed | unsendable => true
  | _ => false

/-- What the queue still has in flight. -/
def Flying (x : SequencedOutput (Body ι)) (inFlight : List InFlight) : Stage → Prop
  | decided | out | answering _ _ => inFlight = [⟨x.sequence, x.item.kind, x.item.bytes⟩]
  | telling _ | settling _ => inFlight = []
  | failTelling _ | failSettling _ | failed | unsendable => True

end Stage

/-- The item in hand, if any. -/
abbrev Hand (ι : Type) := Option (SequencedOutput (Body ι) × Stage)

namespace Hand

/-- The items in hand. -/
def items (hand : Hand ι) : List (SequencedOutput (Body ι)) := (hand.map Prod.fst).toList

/-- What is seen of the item in hand. -/
def events (hears : Bool) (format : StreamAudioFormat) (before : List (SequencedOutput (Body ι))) :
    Hand ι → List (Event ι)
  | none => []
  | some (x, stage) => stage.events hears format before x

/-- The callers that have an item in hand. -/
def holders : Hand ι → List Thread
  | none => []
  | some (x, stage) => stage.holders x.item.kind

/-- The writes the transport has not answered. -/
def sent : Hand ι → ℕ
  | none => 0
  | some (_, stage) => stage.sent

/-- Whether an item is in hand that something will still be done with. -/
def live : Hand ι → Bool
  | none => false
  | some (_, stage) => !stage.dead

/-- What the queue still has in flight. -/
def Flying (inFlight : List InFlight) : Hand ι → Prop
  | none => inFlight = []
  | some (x, stage) => stage.Flying x inFlight

end Hand

/-- How far the end of the call has come. -/
inductive Ending
  | awaited
  /-- A caller is about to run it, or to cancel first. -/
  | decided (status : Status) (cancels : Bool)
  | called (status : Status)

namespace Ending

/-- The status of the end, once it is decided. -/
def status : Ending → Option Status
  | awaited => none
  | decided status _ | called status => some status

/-- The caller about to end the call. -/
def holders : Ending → List Thread
  | decided status false => [.running (.finish status)]
  | decided status true => [.cancelling (.finish status)]
  | _ => []

/-- What is seen of the end. -/
def events : Ending → List (Event ι)
  | called status => [.finished status]
  | _ => []

end Ending

/-- Whether a caller has the item of the write path in hand. -/
def Thread.writes : Thread → Bool
  | .running .write | .cancelling .write => true
  | .answering _ _ | .telling _ _ _ _ | .settling _ _ _ => true
  | _ => false

/-- Whether a caller is about to end the call. -/
def Thread.ends : Thread → Bool
  | .running (.finish _) | .cancelling (.finish _) => true
  | _ => false

/-- Whether an event is of the wire. -/
def Event.onWire : Event ι → Bool
  | .cancelled | .entered | .left => false
  | _ => true

/-- The totals of the items taken. -/
structure Counted (format : StreamAudioFormat) (items : List (SequencedOutput (Body ι)))
    (audioSamples utterances segments : ℕ) : Prop where
  audioSamples : audioSamples = (items.map (samplesOf format)).sum % 2 ^ 64
  utterances : utterances = items.countP isFinal % 2 ^ 32
  segments : segments = items.countP isSegmentCompletion % 2 ^ 32

/-- **The line of a call**: the items delivered, the one in hand, the
end. -/
structure Line (w : World ι) (done : List (SequencedOutput (Body ι))) (hand : Hand ι)
    (ending : Ending) : Prop where
  log : w.log.filter Event.onWire =
    deliveries w.out.delivered w.out.format [] done ++
      (hand.events w.out.delivered w.out.format done ++ ending.events)
  writers : w.threads.filter Thread.writes = hand.holders
  enders : w.threads.filter Thread.ends = ending.holders
  unanswered : w.unanswered = hand.sent
  writing : w.out.writing = hand.live
  finished : w.out.finished = ending.status.isSome
  wanted : ∀ s, ending.status = some s → w.out.finishWanted = some s
  rests : ending.status.isSome = true → hand.live = false
  stops : (∃ x stage, hand = some (x, stage) ∧ stage.dead = true) → w.out.finishWanted.isSome = true
  terminal : (∃ x ∈ done, x.item.kind = .terminal) →
    w.out.finishWanted.isSome = true ∧ hand.live = false
  kind : ∀ x stage, hand = some (x, stage) → stage.dead = false →
    w.out.writingKind = x.item.kind ∧ w.out.writingSequence = x.sequence
  buffer : ∀ x, hand = some (x, .decided) → w.out.buffer = eventOf w.out.format done x
  sent : ∀ x ∈ done, sendable x = true
  held : ∀ x stage, hand = some (x, stage) → (stage = .unsendable ↔ sendable x = false)
  flying : hand.Flying w.queue.inFlight
  sequences : (done ++ hand.items).map SequencedOutput.sequence =
    List.range' 1 w.queue.lastSequence
  counted : Counted w.out.format (done ++ hand.items) w.out.audioSamples w.out.utterances
    w.out.segments
  bound : w.out.output = false → done = [] ∧ hand = none
  answered : w.finishAnswered = true → ∃ s, ending = .called s
  gone : w.out.writer = false → ∃ s, ending = .called s

/-! ## Encoding -/

section Encoding

variable {out : CallOutput ι} {before : List (SequencedOutput (Body ι))}
  {x : SequencedOutput (Body ι)} {format : StreamAudioFormat} {a u n : ℕ}

/-- The totals behind one more item. -/
theorem Counted.concat (h : Counted format before a u n) (x : SequencedOutput (Body ι)) :
    Counted format (before ++ [x]) ((a + samplesOf format x) % 2 ^ 64)
      ((u + if isFinal x then 1 else 0) % 2 ^ 32)
      ((n + if isSegmentCompletion x then 1 else 0) % 2 ^ 32) := by
  refine ⟨?_, ?_, ?_⟩
  · rw [h.audioSamples, List.map_append, List.sum_append, Nat.mod_add_mod]
    simp
  · rw [h.utterances, List.countP_append, Nat.mod_add_mod]
    simp [List.countP_cons]
  · rw [h.segments, List.countP_append, Nat.mod_add_mod]
    simp [List.countP_cons]

theorem Counted.lt (h : Counted format before a u n) : a < 2 ^ 64 ∧ u < 2 ^ 32 ∧ n < 2 ^ 32 := by
  refine ⟨?_, ?_, ?_⟩
  · rw [h.audioSamples]
    exact Nat.mod_lt _ (Nat.two_pow_pos _)
  · rw [h.utterances]
    exact Nat.mod_lt _ (Nat.two_pow_pos _)
  · rw [h.segments]
    exact Nat.mod_lt _ (Nat.two_pow_pos _)

/-- An item that counts for nothing. -/
theorem Counted.concat_of_plain (h : Counted format before a u n) (hsamples : samplesOf format x = 0)
    (hfinal : isFinal x = false) (hsegment : isSegmentCompletion x = false) :
    Counted format (before ++ [x]) a u n := by
  obtain ⟨h₁, h₂, h₃⟩ := h.lt
  have hconcat := h.concat x
  rw [hsamples, hfinal, hsegment, if_neg Bool.false_ne_true, Nat.add_zero, Nat.add_zero,
    Nat.add_zero, Nat.mod_eq_of_lt h₁, Nat.mod_eq_of_lt h₂, Nat.mod_eq_of_lt h₃] at hconcat
  exact hconcat

/-- What cannot be sent is not encoded and changes nothing. -/
theorem encodeLocked_of_not (hs : sendable x = false) :
    out.encodeLocked x.item.body = (out, none) := by
  unfold sendable at hs
  rcases hb : x.item.body with _ | event | output | _
  · rfl
  · simp [hb] at hs
  · simp [hb] at hs
  · rfl

theorem plain_of_not (hs : sendable x = false) :
    samplesOf format x = 0 ∧ isFinal x = false ∧ isSegmentCompletion x = false := by
  unfold sendable at hs
  rcases hb : x.item.body with _ | event | output | _
  · simp [samplesOf, isFinal, isSegmentCompletion, hb]
  · simp [hb] at hs
  · simp [hb] at hs
  · simp [samplesOf, isFinal, isSegmentCompletion, hb]

/-- **Encoding an item** gives the body it is sent as and counts it. -/
theorem encodeLocked_of_sendable
    (h : Counted out.format before out.audioSamples out.utterances out.segments)
    (hs : sendable x = true) :
    ∃ a u n, out.encodeLocked x.item.body =
        ({ out with audioSamples := a, utterances := u, segments := n },
          some (bodyOf out.format before x)) ∧
      Counted out.format (before ++ [x]) a u n := by
  unfold sendable at hs
  rcases hb : x.item.body with _ | event | output | _
  · simp [hb] at hs
  · -- A message of the binding is counted nowhere.
    refine ⟨out.audioSamples, out.utterances, out.segments, ?_,
      h.concat_of_plain (by simp [samplesOf, hb]) (by simp [isFinal, hb])
        (by simp [isSegmentCompletion, hb])⟩
    cases event
    case sessionClosed content totals =>
      have hbody : bodyOf out.format before x =
          .sessionClosed content (totalsOf out.format before totals) := by simp only [bodyOf, hb]
      rw [hbody, totalsOf, ← h.audioSamples, ← h.utterances, ← h.segments]
      rfl
    all_goals simp only [CallOutput.encodeLocked, bodyOf, hb]
  · obtain ⟨h₁, h₂, h₃⟩ := h.lt
    have hbody : bodyOf out.format before x = taskEvent output out.format := by
      simp only [bodyOf, hb]
    have hcount := h.concat x
    rw [hbody]
    cases output
    case audioChunk segmentId chunkIndex offset pcm =>
      simp only [samplesOf, isFinal, isSegmentCompletion, hb, Bool.false_eq_true, if_false,
        Nat.add_zero, Nat.mod_eq_of_lt h₂, Nat.mod_eq_of_lt h₃] at hcount
      exact ⟨_, _, _, rfl, hcount⟩
    case finalTranscript utteranceId segments endSampleOffset finalizeSequence =>
      simp only [samplesOf, isFinal, isSegmentCompletion, hb, Bool.false_eq_true, if_false,
        if_true, Nat.add_zero, Nat.mod_eq_of_lt h₁, Nat.mod_eq_of_lt h₃] at hcount
      exact ⟨_, _, _, rfl, hcount⟩
    case segmentCompleted segmentId totalSamples chunkCount =>
      simp only [samplesOf, isFinal, isSegmentCompletion, hb, Bool.false_eq_true, if_false,
        if_true, Nat.add_zero, Nat.mod_eq_of_lt h₁, Nat.mod_eq_of_lt h₂] at hcount
      exact ⟨_, _, _, rfl, hcount⟩
    all_goals
      simp only [samplesOf, isFinal, isSegmentCompletion, hb, Bool.false_eq_true, if_false,
        Nat.add_zero, Nat.mod_eq_of_lt h₁, Nat.mod_eq_of_lt h₂, Nat.mod_eq_of_lt h₃] at hcount
      exact ⟨_, _, _, rfl, hcount⟩
  · simp [hb] at hs

end Encoding

/-! ## Deciding what to do next -/

section Deciding

variable {w : World ι} {done : List (SequencedOutput (Body ι))} {hand : Hand ι}
  {ending : Ending}

/-- The caller that decided on a step, about to run it or to cancel
first. -/
def deciding (cancels : Bool) (step : Step) : Thread :=
  if cancels then .cancelling step else .running step

@[simp] theorem writes_deciding_none (cancels : Bool) :
    (deciding cancels .none).writes = false := by
  cases cancels <;> rfl

@[simp] theorem ends_deciding_none (cancels : Bool) : (deciding cancels .none).ends = false := by
  cases cancels <;> rfl

@[simp] theorem writes_deciding_finish (cancels : Bool) (s : Status) :
    (deciding cancels (.finish s)).writes = false := by
  cases cancels <;> rfl

@[simp] theorem ends_deciding_finish (cancels : Bool) (s : Status) :
    (deciding cancels (.finish s)).ends = true := by
  cases cancels <;> rfl

theorem holders_decided (s : Status) (cancels : Bool) :
    (Ending.decided s cancels).holders = [deciding cancels (.finish s)] := by
  cases cancels <;> rfl

/-- A caller that neither writes nor ends the call joins. -/
theorem Line.spawn (h : Line w done hand ending) {t : Thread} (hw : t.writes = false)
    (he : t.ends = false) : Line (w.spawn t) done hand ending :=
  { h with
    writers := (filter_concat_of_neg hw).trans h.writers
    enders := (filter_concat_of_neg he).trans h.enders }

/-- An event that is not of the wire. -/
theorem Line.record (h : Line w done hand ending) {e : Event ι} (he : e.onWire = false) :
    Line (w.record e) done hand ending :=
  { h with log := (filter_concat_of_neg he).trans h.log }

/-- What is in hand where no write is under way. -/
theorem Line.idle (h : Line w done hand ending) (hwriting : w.out.writing = false)
    (hwanted : w.out.finishWanted = none) : hand = none := by
  rcases hand with _ | ⟨x, stage⟩
  · rfl
  · have hlive := h.writing.symm.trans hwriting
    have hdead : stage.dead = true := by simpa [Hand.live] using hlive
    have := h.stops ⟨x, stage, rfl, hdead⟩
    rw [hwanted] at this
    cases this

theorem Line.awaited (h : Line w done hand ending) (hfinished : w.out.finished = false) :
    ending = .awaited := by
  rw [h.finished] at hfinished
  rcases ending with _ | ⟨s, c⟩ | s
  · rfl
  · cases hfinished
  · cases hfinished

/-- **The end is decided** where it is wanted and nothing is in hand. -/
theorem Line.finishLocked (h : Line w done hand ending) (hwriting : w.out.writing = false)
    (hfinished : w.out.finished = false) (hwriter : w.out.writer = true) (cancels : Bool) :
    ∃ ending', Line (w.finishLocked.1.spawn (deciding cancels w.finishLocked.2)) done hand
      ending' := by
  obtain rfl := h.awaited hfinished
  unfold World.finishLocked
  rcases hwanted : w.out.finishWanted with _ | s
  · exact ⟨_, h.spawn (writes_deciding_none cancels) (ends_deciding_none cancels)⟩
  · refine ⟨.decided s cancels, { h with
      writers := (filter_concat_of_neg (writes_deciding_finish cancels s)).trans h.writers
      enders := ?_
      finished := rfl
      wanted := ?_
      rests := fun _ => h.writing.symm.trans hwriting
      answered := ?_
      gone := ?_ }⟩
    · rw [holders_decided]
      refine (filter_concat_of_pos (ends_deciding_finish cancels s)).trans ?_
      exact congrArg (· ++ [deciding cancels (.finish s)]) h.enders
    · intro s' hs'
      obtain rfl := Option.some.inj hs'
      exact hwanted
    · intro ha
      obtain ⟨s', hs'⟩ := h.answered ha
      cases hs'
    · intro hg
      have hg' : w.out.writer = false := hg
      rw [hwriter] at hg'
      cases hg'

/-- The line behind a take, before it is known what the item is sent as. -/
theorem take_some {q queue : BoundedOutputQueue (Body ι)} {x : SequencedOutput (Body ι)}
    (h : q.take = (queue, some x)) :
    x.sequence = q.lastSequence + 1 ∧ queue.lastSequence = q.lastSequence + 1 ∧
      queue.inFlight = q.inFlight ++ [⟨x.sequence, x.item.kind, x.item.bytes⟩] := by
  unfold BoundedOutputQueue.take at h
  split at h
  · cases h
  · cases h
    exact ⟨rfl, rfl, rfl⟩

theorem Line.sequences_concat (h : Line w done none ending) {x : SequencedOutput (Body ι)}
    (hx : x.sequence = w.queue.lastSequence + 1) :
    (done ++ [x]).map SequencedOutput.sequence = List.range' 1 (w.queue.lastSequence + 1) := by
  have hs := h.sequences
  simp only [Hand.items, Option.map_none, Option.toList_none, List.append_nil] at hs
  rw [List.map_append, hs, List.range'_1_concat, List.map_cons, hx, Nat.add_comm]
  rfl

theorem Line.items_of_none (h : Line w done none ending) :
    Counted w.out.format done w.out.audioSamples w.out.utterances w.out.segments := by
  have hc := h.counted
  simp only [Hand.items, Option.map_none, Option.toList_none, List.append_nil] at hc
  exact hc

/-- **An item is taken and its write decided**, or it cannot be sent and
the call ends. -/
theorem Line.writeLocked (h : Line w done none .awaited) (hwriter : w.out.writer = true)
    (hwanted : w.out.finishWanted = none) (hbound : w.out.output = true)
    {queue : BoundedOutputQueue (Body ι)} {x : SequencedOutput (Body ι)}
    (htake : w.queue.take = (queue, some x)) :
    ∃ hand' ending', Line ((({ w with queue := queue }.record (.taken x)).writeLocked x).1.spawn
      (.running (({ w with queue := queue }.record (.taken x)).writeLocked x).2)) done hand'
      ending' := by
  obtain ⟨hseq, hlast, hflight⟩ := take_some htake
  have hlog : (w.log ++ [Event.taken x]).filter Event.onWire =
      deliveries w.out.delivered w.out.format [] done ++ [.taken x] := by
    rw [filter_concat_of_pos rfl, h.log]
    simp [Hand.events, Ending.events]
  have hflying : queue.inFlight = [⟨x.sequence, x.item.kind, x.item.bytes⟩] := by
    have hnone : w.queue.inFlight = [] := h.flying
    rw [hflight, hnone, List.nil_append]
  have hsequences : (done ++ [x]).map SequencedOutput.sequence =
      List.range' 1 queue.lastSequence := by
    rw [hlast]
    exact h.sequences_concat hseq
  have hcounted := h.items_of_none
  unfold World.writeLocked
  by_cases hs : sendable x = true
  · obtain ⟨a, u, n, hencode, hcounted'⟩ := encodeLocked_of_sendable hcounted hs
    have hencode' : ({ w with queue := queue }.record (.taken x)).out.encodeLocked x.item.body =
      ({ w.out with audioSamples := a, utterances := u, segments := n },
        some (bodyOf w.out.format done x)) := hencode
    rw [hencode']
    refine ⟨some (x, .decided), .awaited, { h with
      log := hlog
      writers := ?_
      enders := (filter_concat_of_neg rfl).trans h.enders
      writing := rfl
      rests := fun hend => nomatch hend
      stops := ?_
      terminal := ?_
      kind := ?_
      buffer := ?_
      held := ?_
      flying := hflying
      sequences := hsequences
      counted := hcounted'
      bound := ?_ }⟩
    · refine (filter_concat_of_pos rfl).trans ?_
      exact congrArg (· ++ [Thread.running .write]) h.writers
    · rintro ⟨y, stage, hy, hdead⟩
      cases hy
      cases hdead
    · intro hterminal
      have hsome := (h.terminal hterminal).1
      rw [hwanted] at hsome
      cases hsome
    · intro y stage hy _
      cases hy
      exact ⟨rfl, rfl⟩
    · intro y hy
      cases hy
      rfl
    · intro y stage hy
      cases hy
      simp [hs]
    · intro hb
      have hb' : w.out.output = false := hb
      rw [hbound] at hb'
      cases hb'
  · rw [Bool.not_eq_true] at hs
    have hencode : ({ w with queue := queue }.record (.taken x)).out.encodeLocked x.item.body =
      (w.out, none) := encodeLocked_of_not hs
    rw [hencode]
    obtain ⟨hsamples, hfinal, hsegment⟩ := plain_of_not hs
    have hline : Line { w.record (.taken x) with
        queue := queue, out := { w.out with finishWanted := some .cannotSend } } done
        (some (x, .unsendable)) .awaited := { h with
      log := hlog
      wanted := fun _ hs' => nomatch hs'
      rests := fun hend => nomatch hend
      stops := fun _ => rfl
      terminal := fun _ => ⟨rfl, rfl⟩
      kind := ?_
      buffer := ?_
      held := ?_
      flying := trivial
      sequences := hsequences
      counted := hcounted.concat_of_plain hsamples hfinal hsegment
      bound := ?_ }
    · exact ⟨_, hline.finishLocked h.writing h.finished hwriter false⟩
    · intro y stage hy hdead
      cases hy
      cases hdead
    · intro y hy
      cases hy
    · intro y stage hy
      cases hy
      simp [hs]
    · intro hb
      have hb' : w.out.output = false := hb
      rw [hbound] at hb'
      cases hb'

/-- **Deciding what to do next** keeps the line. A caller that will cancel
first decides on no write. -/
theorem Line.nextLocked (h : Line w done hand ending) (cancels : Bool)
    (hcancels : cancels = true → w.out.finishWanted.isSome = true) :
    ∃ hand' ending', Line (w.nextLocked.1.spawn (deciding cancels w.nextLocked.2)) done hand'
      ending' := by
  unfold World.nextLocked
  split_ifs with hstop htake
  · exact ⟨_, _, h.spawn (writes_deciding_none cancels) (ends_deciding_none cancels)⟩
  · simp only [Bool.or_eq_true, Bool.not_eq_true', not_or, Bool.not_eq_false,
      Bool.not_eq_true] at hstop
    obtain ⟨⟨hwriter, hwriting⟩, hfinished⟩ := hstop
    rw [Bool.and_eq_true, Option.isNone_iff_eq_none] at htake
    have hc : cancels = false := by
      rw [Bool.eq_false_iff]
      intro hc
      have := hcancels hc
      rw [htake.1] at this
      cases this
    subst hc
    obtain rfl := h.idle hwriting htake.1
    obtain rfl := h.awaited hfinished
    rcases hq : w.queue.take with ⟨queue, _ | x⟩
    · exact ⟨_, h.finishLocked hwriting hfinished hwriter false⟩
    · exact h.writeLocked hwriter htake.1 htake.2 hq
  · simp only [Bool.or_eq_true, Bool.not_eq_true', not_or, Bool.not_eq_false,
      Bool.not_eq_true] at hstop
    exact ⟨_, h.finishLocked hstop.1.2 hstop.2 hstop.1.1 cancels⟩

end Deciding

/-! ## One step of the world -/

section Steps

variable {w w' : World ι}

/-- **The line kept by every step.** -/
def Kept (w : World ι) : Prop := ∃ done hand ending, Line w done hand ending

theorem Line.kept_decideNext {done : List (SequencedOutput (Body ι))} {hand : Hand ι}
    {ending : Ending} (h : Line w done hand ending) : Kept w.decideNext := by
  obtain ⟨hand', ending', h'⟩ := h.nextLocked false (fun hc => nomatch hc)
  exact ⟨done, hand', ending', h'⟩

variable {done : List (SequencedOutput (Body ι))} {hand : Hand ι} {ending : Ending} {i : ℕ}
  {t : Thread}

/-- A status to end the call with is set where none was. -/
theorem Line.want (h : Line w done hand ending) (s : Status) (refused : Bool)
    (hs : ∀ s₀, w.out.finishWanted = some s₀ → s = s₀) :
    Line { w with out := { w.out with finishWanted := some s, refused := refused } } done hand
      ending :=
  { h with
    wanted := fun s₀ hs₀ => congrArg some (hs s₀ (h.wanted s₀ hs₀))
    stops := fun _ => rfl
    terminal := fun ht => ⟨rfl, (h.terminal ht).2⟩ }

/-- The queue changes behind what is in flight. -/
theorem Line.requeue (h : Line w done hand ending) {queue : BoundedOutputQueue (Body ι)}
    (hflight : queue.inFlight = w.queue.inFlight)
    (hlast : queue.lastSequence = w.queue.lastSequence) :
    Line { w with queue := queue } done hand ending := by
  refine { h with flying := ?_, sequences := ?_ }
  · have hf := h.flying
    rw [← hflight] at hf
    exact hf
  · have hs := h.sequences
    rw [← hlast] at hs
    exact hs

theorem Line.bind (h : Line w done hand ending) (delivered : Bool) (format : StreamAudioFormat) :
    Line { w with out := w.out.bind delivered format } done hand ending := by
  unfold CallOutput.bind
  split_ifs with hb
  · exact h
  · obtain ⟨rfl, rfl⟩ := h.bound (by simpa using hb)
    have hcounted := h.counted
    refine { h with
      buffer := fun x hx => nomatch hx
      counted := ⟨hcounted.audioSamples, hcounted.utterances, hcounted.segments⟩
      bound := fun hb' => nomatch hb' }

/-! ## A caller goes on -/

theorem holders_le_one (hand : Hand ι) : hand.holders = [] ∨ ∃ u, hand.holders = [u] := by
  rcases hand with _ | ⟨x, stage⟩
  · exact .inl rfl
  · cases stage <;> simp [Hand.holders, Stage.holders]

/-- A caller with the item in hand is the only one. -/
theorem Line.leave_writer (h : Line w done hand ending) (ht : w.threads[i]? = some t)
    (hwrites : t.writes = true) :
    hand.holders = [t] ∧ (w.threads.eraseIdx i).filter Thread.writes = [] := by
  have hmem : t ∈ hand.holders := by
    rw [← h.writers]
    exact List.mem_filter.2 ⟨List.mem_of_getElem? ht, hwrites⟩
  rcases holders_le_one hand with hnil | ⟨u, hu⟩
  · rw [hnil] at hmem
    cases hmem
  · obtain ⟨rfl, herase⟩ := filter_eraseIdx_of_singleton ht hwrites (h.writers.trans hu)
    exact ⟨hu, herase⟩

/-- A caller about to end the call is the only one. -/
theorem Line.leave_ender (h : Line w done hand ending) (ht : w.threads[i]? = some t)
    (hends : t.ends = true) :
    ending.holders = [t] ∧ (w.threads.eraseIdx i).filter Thread.ends = [] := by
  have hmem : t ∈ ending.holders := by
    rw [← h.enders]
    exact List.mem_filter.2 ⟨List.mem_of_getElem? ht, hends⟩
  have hone : ending.holders = [] ∨ ∃ u, ending.holders = [u] := by
    rcases ending with _ | ⟨s, _ | _⟩ | s
    · exact .inl rfl
    · exact .inr ⟨_, rfl⟩
    · exact .inr ⟨_, rfl⟩
    · exact .inl rfl
  rcases hone with hnil | ⟨u, hu⟩
  · rw [hnil] at hmem
    cases hmem
  · obtain ⟨rfl, herase⟩ := filter_eraseIdx_of_singleton ht hends (h.enders.trans hu)
    exact ⟨hu, herase⟩

/-- A caller with nothing to do leaves. -/
theorem Line.leave (h : Line w done hand ending) (ht : w.threads[i]? = some t)
    (hw : t.writes = false) (he : t.ends = false) :
    Line { w with threads := w.threads.eraseIdx i } done hand ending :=
  { h with
    writers := (filter_eraseIdx_of_not ht hw).trans h.writers
    enders := (filter_eraseIdx_of_not ht he).trans h.enders }

theorem ends_of_writes (hw : t.writes = true) : t.ends = false := by
  rcases t with (_ | _ | s) | (_ | _ | s) | _ | _ | _ <;> simp [Thread.writes, Thread.ends] at hw ⊢

theorem writes_of_ends (he : t.ends = true) : t.writes = false := by
  rcases t with (_ | _ | s) | (_ | _ | s) | _ | _ | _ <;> simp [Thread.writes, Thread.ends] at he ⊢

theorem Line.awaited_of_live {x : SequencedOutput (Body ι)} {stage : Stage}
    (h : Line w done (some (x, stage)) ending) (hlive : stage.dead = false) :
    ending = .awaited := by
  apply h.awaited
  rw [h.finished, Bool.eq_false_iff]
  intro hsome
  have hrests := h.rests hsome
  simp [Hand.live, hlive] at hrests

theorem ne_unsendable_of_live {stage : Stage} (hlive : stage.dead = false) :
    stage ≠ .unsendable := by
  rintro rfl
  cases hlive

/-- **The item in hand goes on**: it changes hands, and what is seen of it
is recorded. -/
theorem Line.pass {x : SequencedOutput (Body ι)} {stage : Stage}
    (h : Line w done (some (x, stage)) ending) (stage' : Stage) {threads : List Thread} {events : List (Event ι)}
    {log : List (Event ι)} {queue : BoundedOutputQueue (Body ι)} {unanswered : ℕ}
    (hlive : stage.dead = false) (hlive' : stage'.dead = false) (hdecided : stage' ≠ .decided)
    (hlog : log.filter Event.onWire = w.log.filter Event.onWire ++ events)
    (hevents : stage'.events w.out.delivered w.out.format done x =
      stage.events w.out.delivered w.out.format done x ++ events)
    (hwriters : threads.filter Thread.writes = stage'.holders x.item.kind)
    (henders : threads.filter Thread.ends = w.threads.filter Thread.ends)
    (hunanswered : unanswered = stage'.sent)
    (hflying : stage'.Flying x queue.inFlight)
    (hlast : queue.lastSequence = w.queue.lastSequence) :
    Line { w with threads := threads, log := log, queue := queue, unanswered := unanswered } done
      (some (x, stage')) ending := by
  obtain rfl := h.awaited_of_live hlive
  have hwriting : w.out.writing = true := by rw [h.writing, Hand.live, hlive, Bool.not_false]
  refine { h with
    log := ?_
    writers := hwriters
    enders := henders.trans h.enders
    unanswered := hunanswered
    writing := ?_
    rests := fun hend => nomatch hend
    stops := ?_
    terminal := ?_
    kind := ?_
    buffer := ?_
    held := ?_
    flying := hflying
    sequences := ?_
    bound := ?_ }
  · rw [hlog, h.log]
    simp only [Hand.events, Ending.events, List.append_nil, List.append_assoc, hevents]
  · simp only [Hand.live, hlive', hwriting, Bool.not_false]
  · rintro ⟨y, stage, hy, hdead⟩
    cases hy
    rw [hlive'] at hdead
    cases hdead
  · intro hterminal
    have hrests := (h.terminal hterminal).2
    simp [Hand.live, hlive] at hrests
  · intro y s hy _
    cases hy
    exact h.kind x stage rfl hlive
  · intro y hy
    cases hy
    exact absurd rfl hdecided
  · intro y s hy
    cases hy
    have hs := h.held x stage rfl
    have h₁ := ne_unsendable_of_live hlive
    have h₂ := ne_unsendable_of_live hlive'
    simp only [h₁, h₂, false_iff] at hs ⊢
    exact hs
  · have hs := h.sequences
    rw [← hlast] at hs
    exact hs
  · intro hb
    obtain ⟨-, hnone⟩ := h.bound hb
    cases hnone

/-- The write that was decided starts. -/
theorem Line.run_write (h : Line w done hand ending)
    (ht : w.threads[i]? = some (.running .write)) :
    Kept ({ w with threads := w.threads.eraseIdx i }.run .write) := by
  obtain ⟨hholder, herase⟩ := h.leave_writer ht rfl
  obtain ⟨x, rfl⟩ : ∃ x, hand = some (x, .decided) := by
    rcases hand with _ | ⟨x, stage⟩
    · cases hholder
    · cases stage <;> simp [Hand.holders, Stage.holders] at hholder ⊢
  have hbuffer := h.buffer x rfl
  refine ⟨done, _, ending, h.pass .out rfl rfl (by simp) (filter_concat_of_pos rfl) ?_
    herase (filter_eraseIdx_of_not ht rfl) ?_ h.flying rfl⟩
  · simp only [Stage.events, List.cons_append, List.nil_append, hbuffer]
  · rw [h.unanswered]
    rfl

/-- The transport answers the write. -/
theorem Line.writeDone (h : Line w done hand ending) (hpos : 0 < w.unanswered) (ok : Bool)
    (now : TimePoint) :
    Kept (({ w with unanswered := w.unanswered - 1 }.record (.answered ok)).spawn
      (.answering ok now)) := by
  obtain ⟨x, rfl⟩ : ∃ x, hand = some (x, .out) := by
    rw [h.unanswered] at hpos
    rcases hand with _ | ⟨x, stage⟩
    · cases hpos
    · cases stage <;> simp [Hand.sent, Stage.sent] at hpos ⊢
  refine ⟨done, _, ending, h.pass (.answering ok now) rfl rfl (by simp)
    (filter_concat_of_pos rfl) rfl ?_ (filter_concat_of_neg rfl) ?_ h.flying rfl⟩
  · refine (filter_concat_of_pos rfl).trans ?_
    exact congrArg (· ++ [Thread.answering ok now]) h.writers
  · rw [h.unanswered]
    rfl

/-- A delivery of the one item in flight is confirmed. -/
theorem delivered_of_singleton {q : BoundedOutputQueue (Body ι)} {x : InFlight} (now : TimePoint)
    (hq : q.inFlight = [x]) : ∃ q', q.delivered x.sequence now = (q', .ok ()) ∧
      q'.inFlight = [] ∧ q'.lastSequence = q.lastSequence := by
  obtain ⟨pcm, metadata, hd⟩ :=
    BoundedOutputQueue.discharge_eq { q with inFlight := [] } x.kind x.bytes
  refine ⟨(q.delivered x.sequence now).1, ?_, ?_, ?_⟩
  all_goals simp [BoundedOutputQueue.delivered, hq, hd]

/-- `write_done` confirms the delivery to the queue. -/
theorem Line.confirm (h : Line w done hand ending) {ok : Bool} {now : TimePoint}
    (ht : w.threads[i]? = some (.answering ok now)) :
    Kept ({ w with threads := w.threads.eraseIdx i }.confirm ok now) := by
  obtain ⟨hholder, herase⟩ := h.leave_writer ht rfl
  obtain ⟨x, rfl⟩ : ∃ x, hand = some (x, .answering ok now) := by
    rcases hand with _ | ⟨x, stage⟩
    · cases hholder
    · cases stage <;> simp [Hand.holders, Stage.holders] at hholder ⊢
      exact hholder
  obtain ⟨hkind, hseq⟩ := h.kind x _ rfl rfl
  have hbound : w.out.output = true := by
    rw [← Bool.not_eq_false]
    intro hb
    cases (h.bound hb).2
  have henders : (w.threads.eraseIdx i).filter Thread.ends = w.threads.filter Thread.ends :=
    filter_eraseIdx_of_not ht rfl
  unfold World.confirm
  cases ok with
  | false =>
    refine ⟨done, _, ending, h.pass (.failTelling now) rfl rfl (by simp)
      (List.append_nil _).symm (List.append_nil _).symm ?_ ((filter_concat_of_neg rfl).trans henders)
      h.unanswered trivial rfl⟩
    exact (filter_concat_singleton herase rfl).trans
      (congrArg (fun kind => [Thread.telling false now kind false]) hkind)
  | true =>
    obtain ⟨q', hq', hflight, hlast⟩ := delivered_of_singleton now h.flying
    have hd : w.queue.delivered w.out.writingSequence now = (q', .ok ()) := by rw [hseq, hq']
    simp only [hbound, Bool.and_self, if_true, hd]
    refine ⟨done, _, ending, h.pass (.telling now) rfl rfl (by simp)
      (filter_concat_of_pos rfl) ?_ ?_ ((filter_concat_of_neg rfl).trans henders) h.unanswered
      hflight hlast⟩
    · simp only [Stage.events, List.cons_append, List.nil_append, hseq]
    · exact (filter_concat_singleton herase rfl).trans
        (congrArg (fun kind => [Thread.telling true now kind true]) hkind)

/-- `write_done` tells the callback. -/
theorem Line.tell (h : Line w done hand ending) {ok : Bool} {now : TimePoint} {kind : OutputKind}
    {confirmed : Bool} (ht : w.threads[i]? = some (.telling ok now kind confirmed)) :
    Kept ({ w with threads := w.threads.eraseIdx i }.tell ok now kind confirmed) := by
  obtain ⟨hholder, herase⟩ := h.leave_writer ht rfl
  have henders : (w.threads.eraseIdx i).filter Thread.ends = w.threads.filter Thread.ends :=
    filter_eraseIdx_of_not ht rfl
  rcases hand with _ | ⟨x, stage⟩
  · cases hholder
  cases stage <;> simp only [Hand.holders, Stage.holders, List.cons.injEq, Thread.telling.injEq,
    reduceCtorEq, and_true] at hholder
  case telling at_ =>
    obtain ⟨rfl, rfl, rfl, rfl⟩ := hholder
    unfold World.tell
    simp only [Bool.true_and]
    split_ifs with hhears
    · have hhears' : w.out.delivered = true := hhears
      refine ⟨done, _, ending, h.pass (.settling at_) rfl rfl (by simp) (filter_concat_of_pos rfl)
        ?_ (filter_concat_singleton herase rfl) ((filter_concat_of_neg rfl).trans henders)
        h.unanswered h.flying rfl⟩
      simp only [Stage.events, delivery, hhears', if_true]
    · have hhears' : w.out.delivered = false := by simpa using hhears
      refine ⟨done, _, ending, h.pass (.settling at_) rfl rfl (by simp) (List.append_nil _).symm
        ?_ (filter_concat_singleton herase rfl) ((filter_concat_of_neg rfl).trans henders)
        h.unanswered h.flying rfl⟩
      simp only [Stage.events, delivery, hhears', Bool.false_eq_true, if_false]
  case failTelling at_ =>
    obtain ⟨rfl, rfl, rfl, rfl⟩ := hholder
    exact ⟨done, _, ending, h.pass (.failSettling at_) rfl rfl (by simp) (List.append_nil _).symm
      (List.append_nil _).symm (filter_concat_singleton herase rfl)
      ((filter_concat_of_neg rfl).trans henders) h.unanswered trivial rfl⟩

/-- The delivery in hand is done with. -/
theorem Line.settled {x : SequencedOutput (Body ι)} {now : TimePoint}
    (h : Line w done (some (x, .settling now)) ending) {threads : List Thread}
    (hwriters : threads.filter Thread.writes = [])
    (henders : threads.filter Thread.ends = w.threads.filter Thread.ends)
    (progress : Option TimePoint) :
    Line { w with
      threads := threads
      out := { w.out with
        writing := false
        endedProgressAt := progress
        finishWanted := World.wantedAfter w.out true x.item.kind } } (done ++ [x]) none ending := by
  obtain rfl := h.awaited_of_live rfl
  refine { h with
    log := ?_
    writers := hwriters
    enders := henders.trans h.enders
    writing := rfl
    wanted := fun s hs => nomatch hs
    rests := fun _ => rfl
    stops := ?_
    terminal := ?_
    kind := fun y stage hy => nomatch hy
    buffer := fun y hy => nomatch hy
    sent := ?_
    held := fun y stage hy => nomatch hy
    sequences := ?_
    counted := ?_
    bound := ?_ }
  · have hlog := h.log
    simp only [Hand.events, Ending.events, List.append_nil, Stage.events] at hlog ⊢
    rw [hlog, deliveries_concat, List.nil_append]
  · rintro ⟨y, stage, hy, -⟩
    cases hy
  · rintro ⟨y, hy, hterminal⟩
    rw [List.mem_append, List.mem_singleton] at hy
    have hsome : w.out.finishWanted.isSome = true ∨ x.item.kind = .terminal := by
      rcases hy with hy | rfl
      · exact .inl (h.terminal ⟨y, hy, hterminal⟩).1
      · exact .inr hterminal
    refine ⟨?_, rfl⟩
    simp only [World.wantedAfter]
    split_ifs with hwanted
    · exact hwanted
    · rfl
    · rfl
    · rcases hsome with hsome | hsome
      · exact absurd hsome hwanted
      · contradiction
  · intro y hy
    rw [List.mem_append, List.mem_singleton] at hy
    rcases hy with hy | rfl
    · exact h.sent y hy
    · have hheld := h.held y _ rfl
      simpa using hheld
  · simpa [Hand.items] using h.sequences
  · simpa [Hand.items] using h.counted
  · intro hb
    cases (h.bound hb).2

/-- A failed write is done with. -/
theorem Line.failed {x : SequencedOutput (Body ι)} {now : TimePoint}
    (h : Line w done (some (x, .failSettling now)) ending) {threads : List Thread}
    (hwriters : threads.filter Thread.writes = [])
    (henders : threads.filter Thread.ends = w.threads.filter Thread.ends)
    (progress : Option TimePoint) :
    Line { w with
      threads := threads
      out := { w.out with
        writing := false
        endedProgressAt := progress
        finishWanted := World.wantedAfter w.out false x.item.kind } } done (some (x, .failed))
      ending := by
  obtain rfl := h.awaited_of_live rfl
  have hsome : (World.wantedAfter w.out false x.item.kind).isSome = true := by
    simp only [World.wantedAfter, Bool.not_false, if_true]
    split_ifs with hwanted
    · exact hwanted
    · rfl
  refine { h with
    writers := hwriters
    enders := henders.trans h.enders
    writing := rfl
    wanted := fun s hs => nomatch hs
    rests := fun _ => rfl
    stops := fun _ => hsome
    terminal := fun _ => ⟨hsome, rfl⟩
    kind := ?_
    buffer := ?_
    held := ?_
    bound := ?_ }
  · intro y stage hy hdead
    cases hy
    cases hdead
  · intro y hy
    cases hy
  · intro y stage hy
    cases hy
    have hheld := h.held x _ rfl
    simpa using hheld
  · intro hb
    cases (h.bound hb).2

/-- `write_done` ends: the item is delivered, or its write failed. -/
theorem Line.settle (h : Line w done hand ending) {ok : Bool} {now : TimePoint} {kind : OutputKind}
    (ht : w.threads[i]? = some (.settling ok now kind)) :
    Kept ({ w with threads := w.threads.eraseIdx i }.settle ok now kind) := by
  obtain ⟨hholder, herase⟩ := h.leave_writer ht rfl
  have henders : (w.threads.eraseIdx i).filter Thread.ends = w.threads.filter Thread.ends :=
    filter_eraseIdx_of_not ht rfl
  rcases hand with _ | ⟨x, stage⟩
  · cases hholder
  cases stage <;> simp only [Hand.holders, Stage.holders, List.cons.injEq, Thread.settling.injEq,
    reduceCtorEq, and_true] at hholder
  case settling at_ =>
    obtain ⟨rfl, rfl, rfl⟩ := hholder
    exact (h.settled herase henders _).kept_decideNext
  case failSettling at_ =>
    obtain ⟨rfl, rfl, rfl⟩ := hholder
    exact (h.failed herase henders _).kept_decideNext

/-- The end that was decided is run. -/
theorem Line.run_finish (h : Line w done hand ending) {s : Status}
    (ht : w.threads[i]? = some (.running (.finish s))) :
    Kept ({ w with threads := w.threads.eraseIdx i }.run (.finish s)) := by
  obtain ⟨hholder, herase⟩ := h.leave_ender ht rfl
  obtain rfl : ending = .decided s false := by
    rcases ending with _ | ⟨s', _ | _⟩ | s' <;> simp [Ending.holders] at hholder ⊢
    exact hholder
  refine ⟨done, hand, .called s, { h with
    log := ?_
    writers := (filter_eraseIdx_of_not ht rfl).trans h.writers
    enders := herase
    answered := fun _ => ⟨s, rfl⟩
    gone := fun _ => ⟨s, rfl⟩ }⟩
  have hlog : (w.log ++ [Event.finished s]).filter Event.onWire =
      w.log.filter Event.onWire ++ [Event.finished s] := filter_concat_of_pos rfl
  have hline := h.log
  simp only [Ending.events, List.append_nil] at hline
  rw [hline] at hlog
  rw [List.append_assoc] at hlog
  exact hlog

/-- A caller cancels the call and goes on to the end it decided. -/
theorem Line.cancel (h : Line w done hand ending) {step : Step}
    (ht : w.threads[i]? = some (.cancelling step)) :
    Kept (({ w with threads := w.threads.eraseIdx i }.record .cancelled).spawn (.running step)) := by
  cases step with
  | none => exact ⟨done, hand, ending, ((h.leave ht rfl rfl).record rfl).spawn rfl rfl⟩
  | write =>
    obtain ⟨hholder, -⟩ := h.leave_writer ht rfl
    rcases hand with _ | ⟨x, stage⟩
    · cases hholder
    · cases stage <;> simp [Hand.holders, Stage.holders] at hholder
  | finish s =>
    obtain ⟨hholder, herase⟩ := h.leave_ender ht rfl
    obtain rfl : ending = .decided s true := by
      rcases ending with _ | ⟨s', _ | _⟩ | s' <;> simp [Ending.holders] at hholder ⊢
      exact hholder
    refine ⟨done, hand, .decided s false, { h with
      log := (filter_concat_of_neg rfl).trans h.log
      writers := (filter_concat_of_neg rfl).trans
        ((filter_eraseIdx_of_not ht rfl).trans h.writers)
      enders := filter_concat_singleton herase rfl
      answered := ?_
      gone := ?_ }⟩
    · intro ha
      obtain ⟨s', hs'⟩ := h.answered ha
      cases hs'
    · intro hg
      obtain ⟨s', hs'⟩ := h.gone hg
      cases hs'

/-- **A caller goes on.** -/
theorem Line.advance (h : Line w done hand ending) (ht : w.threads[i]? = some t) :
    Kept ({ w with threads := w.threads.eraseIdx i }.advance t) := by
  rcases t with (_ | _ | s) | step | ⟨ok, now⟩ | ⟨ok, now, kind, confirmed⟩ | ⟨ok, now, kind⟩
  · exact ⟨done, hand, ending, h.leave ht rfl rfl⟩
  · exact h.run_write ht
  · exact h.run_finish ht
  · exact h.cancel ht
  · exact h.confirm ht
  · exact h.tell ht
  · exact h.settle ht

/-- The places of the listener are apart from the line. -/
theorem Line.places (h : Line w done hand ending) (places : RefusedCalls) (others : ℕ) :
    Line { w with refusedCalls := places, others := others } done hand ending :=
  { h with }

theorem Line.detach (h : Line w done hand ending) (ha : w.finishAnswered = true) :
    Line w.detach done hand ending := by
  have hgone : Line { w with out := { w.out with writer := false, refused := false } } done hand
      ending := { h with gone := fun _ => h.answered ha }
  unfold World.detach
  split_ifs
  · exact (hgone.places w.refusedCalls.leave w.others).record (e := .left) rfl
  · exact hgone

theorem Line.refuse (h : Line w done hand ending) (s : Status) : Kept (w.refuse s) := by
  unfold World.refuse
  split_ifs with hstop
  · exact ⟨done, hand, ending, h⟩
  · have hnone : w.out.finishWanted = none := by
      rcases hw : w.out.finishWanted with _ | s₀
      · rfl
      · simp [hw] at hstop
    have hwant : ∀ (s' : Status) (r : Bool),
        Line { w with out := { w.out with finishWanted := some s', refused := r } } done hand
          ending := by
      intro s' r
      refine h.want s' r fun s₀ hs₀ => ?_
      rw [hnone] at hs₀
      cases hs₀
    rcases w.refusedCalls.enter with ⟨places, _ | _⟩
    · obtain ⟨hand', ending', h'⟩ := (hwant .CANCELLED w.out.refused).nextLocked true fun _ => rfl
      exact ⟨done, hand', ending', h'⟩
    · have hplace := (hwant s true).places places w.others
      exact (hplace.record (e := .entered) rfl).kept_decideNext

theorem cancelIfStalled_fst (out : CallOutput ι) (now : TimePoint) :
    ∃ c, (out.cancelIfStalled now).1 = { out with cancelled := c } := by
  unfold CallOutput.cancelIfStalled
  split
  · exact ⟨out.cancelled, rfl⟩
  · dsimp only
    split_ifs
    · exact ⟨out.cancelled, rfl⟩
    · exact ⟨out.cancelled, rfl⟩
    · exact ⟨true, rfl⟩

theorem isFinished_delivery (hears : Bool) (format : StreamAudioFormat)
    (before : List (SequencedOutput (Body ι))) (x : SequencedOutput (Body ι)) :
    ∀ e ∈ delivery hears format before x, e.isFinished = false := by
  cases hears <;> simp [delivery, Event.isFinished]

theorem isFinished_deliveries (hears : Bool) (format : StreamAudioFormat) :
    ∀ (items before : List (SequencedOutput (Body ι))),
      ∀ e ∈ deliveries hears format before items, e.isFinished = false := by
  intro items
  induction items with
  | nil =>
    intro before e he
    cases he
  | cons x rest ih =>
    intro before e he
    rw [deliveries, List.mem_append] at he
    rcases he with he | he
    · exact isFinished_delivery hears format before x e he
    · exact ih _ e he

theorem isFinished_events (hand : Hand ι) (hears : Bool) (format : StreamAudioFormat)
    (before : List (SequencedOutput (Body ι))) :
    ∀ e ∈ hand.events hears format before, e.isFinished = false := by
  rcases hand with _ | ⟨x, stage⟩
  · intro e he
    cases he
  · intro e he
    cases stage
    case settling now => exact isFinished_delivery hears format before x e he
    all_goals
      simp only [Hand.events, Stage.events, List.mem_cons, List.not_mem_nil, or_false] at he
      rcases he with rfl | rfl | rfl | rfl <;> rfl

/-- Before the end there is no end. -/
theorem Line.isFinished_before (_ : Line w done hand ending) :
    ∀ e ∈ deliveries w.out.delivered w.out.format [] done ++
      hand.events w.out.delivered w.out.format done, e.isFinished = false := by
  intro e he
  rw [List.mem_append] at he
  rcases he with he | he
  · exact isFinished_deliveries _ _ done [] e he
  · exact isFinished_events hand _ _ done e he

theorem Line.called_of_any (h : Line w done hand ending)
    (hany : w.log.any Event.isFinished = true) : ∃ s, ending = .called s := by
  obtain ⟨e, he, hf⟩ := List.any_eq_true.1 hany
  have hwire : e ∈ w.log.filter Event.onWire := by
    refine List.mem_filter.2 ⟨he, ?_⟩
    cases e <;> simp [Event.isFinished] at hf ⊢
    rfl
  rw [h.log, ← List.append_assoc, List.mem_append] at hwire
  rcases hwire with hwire | hwire
  · rw [h.isFinished_before e hwire] at hf
    cases hf
  · rcases ending with _ | ⟨s, c⟩ | s
    · cases hwire
    · cases hwire
    · exact ⟨s, rfl⟩

/-- **One step keeps the line.** -/
theorem Kept.step {a : Action ι} (h : Kept w) (hs : w.step a = some w') : Kept w' := by
  obtain ⟨done, hand, ending, h⟩ := h
  cases a with
  | bind delivered format =>
    cases hs
    exact ⟨done, hand, ending, h.bind delivered format⟩
  | setEndStatus status =>
    cases hs
    exact ⟨done, hand, ending, { h with }⟩
  | pump =>
    cases hs
    exact h.kept_decideNext
  | finish status =>
    cases hs
    refine (h.want (w.out.finishWanted.getD status) w.out.refused fun s₀ hs₀ => ?_).kept_decideNext
    rw [hs₀, Option.getD_some]
  | refuse status =>
    simp only [World.step] at hs
    split_ifs at hs
    cases hs
    exact h.refuse status
  | detach =>
    simp only [World.step] at hs
    split_ifs at hs with hc
    cases hs
    rw [Bool.and_eq_true] at hc
    exact ⟨done, hand, ending, h.detach hc.2⟩
  | sessionEnded now =>
    cases hs
    unfold CallOutput.sessionEnded
    split_ifs
    · exact ⟨done, hand, ending, { h with }⟩
    · exact ⟨done, hand, ending, h⟩
  | cancelIfStalled now =>
    simp only [World.step] at hs
    split_ifs at hs
    obtain ⟨c, hc⟩ := cancelIfStalled_fst w.out now
    have hline : Line { w with out := { w.out with cancelled := c } } done hand ending :=
      { h with }
    rcases hr : w.out.cancelIfStalled now with ⟨out, _ | _, due⟩
    · rw [hr] at hs hc
      cases hs
      obtain rfl : out = _ := hc
      exact ⟨done, hand, ending, hline⟩
    · rw [hr] at hs hc
      cases hs
      obtain rfl : out = _ := hc
      exact ⟨done, hand, ending, hline.spawn rfl rfl⟩
  | writeDone ok now =>
    simp only [World.step] at hs
    split_ifs at hs with hpos
    cases hs
    exact h.writeDone hpos ok now
  | finishDone =>
    simp only [World.step] at hs
    split_ifs at hs with hany
    cases hs
    exact ⟨done, hand, ending, { h with answered := fun _ => h.called_of_any hany }⟩
  | offer item now =>
    cases hs
    rcases BoundedOutputQueue.offer_cases w.queue item now with ⟨hq, -⟩ | ⟨-, -, old, hoffer⟩
    · rw [hq]
      exact ⟨done, hand, ending, h⟩
    · exact ⟨done, hand, ending, h.requeue hoffer.inFlight hoffer.sequence⟩
  | suppress =>
    cases hs
    obtain ⟨pcm, metadata, hq⟩ := BoundedOutputQueue.suppress_eq w.queue
    refine ⟨done, hand, ending, h.requeue ?_ ?_⟩
    · rw [hq]
    · rw [hq]
  | thread i =>
    simp only [World.step] at hs
    split at hs
    · rename_i t ht
      cases hs
      exact h.advance ht
    · cases hs
  | otherEnters =>
    simp only [World.step] at hs
    split at hs
    · cases hs
      exact ⟨done, hand, ending, h.places _ _⟩
    · cases hs
      exact ⟨done, hand, ending, h⟩
  | otherLeaves =>
    simp only [World.step] at hs
    split_ifs at hs
    cases hs
    exact ⟨done, hand, ending, h.places _ _⟩

end Steps

end Stream

end Tensorplate
