import Tensorplate.Lib.Pending
import Tensorplate.Sdk.Gate

/-!
# The order of what is written

`OkEvent` says what may be written behind a log: the sequences of a call
count up from its Open, nothing follows the half close, the audio and the
segments are counted, and no input is written before the answer to a
Finalize. `Counted` ties the session's counters to the log. The samples of
an Audio are counted when its write is over, so `World.aloft` keeps those of
the Audio being written.
-/

namespace Tensorplate

namespace Sdk

open Lib

variable {w w' : World} {s s' : Session}

/-! ## What the log says -/

/-- The event is written on this call. -/
def Happened.isOn (call : ℕ) : Happened → Bool
  | .wrote c _ _ => c = call
  | _ => false

/-- The samples an entry writes. -/
def Happened.samples : Happened → ℕ
  | .wrote _ _ (.audio _ samples _) => samples
  | _ => 0

def ClientBody.isSegment : ClientBody → Bool
  | .textSegment _ => true
  | _ => false

def Happened.isSegment : Happened → Bool
  | .wrote _ _ body => body.isSegment
  | _ => false

/-- An Audio shorter than the least frame. -/
def Happened.isShortAudio : Happened → Bool
  | .wrote _ _ (.audio _ _ short) => short
  | _ => false

def Happened.isFinalize : Happened → Bool
  | .wrote _ _ .finalize => true
  | _ => false

/-- A Finalize of this sequence. -/
def Happened.Finalizes (sequence : ℕ) (x : Happened) : Prop :=
  ∃ call, x = .wrote call sequence .finalize

def writesOn (call : ℕ) (log : List Happened) : ℕ := log.countP (Happened.isOn call)

def samplesIn (log : List Happened) : ℕ := (log.map Happened.samples).sum

def segmentsIn (log : List Happened) : ℕ := log.countP Happened.isSegment

/-- The Finalize of this sequence is unanswered. -/
def Unanswered (sequence : ℕ) : List Happened → Prop :=
  Pending (Happened.Finalizes sequence) (· = .readAnswer sequence)

/-- A short Audio stands with no Finalize behind it. -/
def EndsShort : List Happened → Prop :=
  Pending (·.isShortAudio = true) (·.isFinalize = true)

/-- **What may be written**, by what happened before. -/
structure OkEvent (past : List Happened) (call sequence : ℕ) (body : ClientBody) : Prop where
  sequence_eq : sequence = writesOn call past + 1
  opening : body = .opening ↔ sequence = 1
  half : ∀ c, Happened.doneWriting c ∉ past
  answered : body.isInput = true → ∀ earlier, ¬Unanswered earlier past
  audio : ∀ {offset samples : ℕ} {short : Bool}, body = .audio offset samples short →
    offset = samplesIn past ∧ ¬EndsShort past
  segment : ∀ {id : ℕ}, body = .textSegment id → id = segmentsIn past + 1

/-- **What may happen.** -/
def InOrder (past : List Happened) : Happened → Prop
  | .wrote call sequence body => OkEvent past call sequence body
  | _ => True

section Log

variable {x : Happened} {log : List Happened}

theorem writesOn_append (call : ℕ) (a b : List Happened) :
    writesOn call (a ++ b) = writesOn call a + writesOn call b := List.countP_append

theorem samplesIn_append (a b : List Happened) :
    samplesIn (a ++ b) = samplesIn a + samplesIn b := by
  unfold samplesIn
  rw [List.map_append, List.sum_append]

theorem segmentsIn_append (a b : List Happened) :
    segmentsIn (a ++ b) = segmentsIn a + segmentsIn b := List.countP_append

/-- What the senders do not see writes nothing. -/
structure Idle (x : Happened) : Prop where
  on : ∀ call, x.isOn call = false
  samples : x.samples = 0
  segment : x.isSegment = false
  short : x.isShortAudio = false
  finalize : x.isFinalize = false
  finalizes : ∀ sequence, ¬x.Finalizes sequence
  half : ∀ call, x ≠ .doneWriting call
  answer : ∀ sequence, x ≠ .readAnswer sequence
  order : ∀ past, InOrder past x

theorem idle_still (h : x.Still) : Idle x := by
  cases x with
  | connected call => exact h.elim
  | wrote call sequence body => exact h.elim
  | doneWriting call => exact h.elim
  | readAnswer sequence => exact h.elim
  | cancelled => exact h.elim
  | _ =>
    exact ⟨fun _ => rfl, rfl, rfl, rfl, rfl, fun _ ⟨_, heq⟩ => absurd heq nofun, nofun, nofun,
      fun _ => trivial⟩

theorem writesOn_idle (call : ℕ) {more : List Happened} (h : ∀ x ∈ more, Idle x) :
    writesOn call (log ++ more) = writesOn call log := by
  have hzero : writesOn call more = 0 := by
    refine List.countP_eq_zero.2 fun x hx => ?_
    rw [(h x hx).on call]
    exact Bool.false_ne_true
  rw [writesOn_append, hzero, Nat.add_zero]

theorem samplesIn_idle {more : List Happened} (h : ∀ x ∈ more, Idle x) :
    samplesIn (log ++ more) = samplesIn log := by
  have hzero : samplesIn more = 0 := by
    induction more with
    | nil => rfl
    | cons x more ih =>
      obtain ⟨hx, hrest⟩ := List.forall_mem_cons.1 h
      show x.samples + samplesIn more = 0
      rw [hx.samples, ih hrest]
  rw [samplesIn_append, hzero, Nat.add_zero]

theorem segmentsIn_idle {more : List Happened} (h : ∀ x ∈ more, Idle x) :
    segmentsIn (log ++ more) = segmentsIn log := by
  have hzero : segmentsIn more = 0 := by
    refine List.countP_eq_zero.2 fun x hx => ?_
    rw [(h x hx).segment]
    exact Bool.false_ne_true
  rw [segmentsIn_append, hzero, Nat.add_zero]

theorem unanswered_idle (sequence : ℕ) {more : List Happened} (h : ∀ x ∈ more, Idle x) :
    Unanswered sequence (log ++ more) ↔ Unanswered sequence log :=
  pending_append fun x hx => ⟨(h x hx).finalizes sequence, (h x hx).answer sequence⟩

theorem endsShort_idle {more : List Happened} (h : ∀ x ∈ more, Idle x) :
    EndsShort (log ++ more) ↔ EndsShort log := by
  refine pending_append fun x hx => ⟨?_, ?_⟩
  · rw [(h x hx).short]
    exact Bool.false_ne_true
  · rw [(h x hx).finalize]
    exact Bool.false_ne_true

end Log

/-! ## The counters -/

/-- **The counters of the session count its log.** -/
structure Counted (s : Session) : Prop where
  sequence : s.sent = writesOn (s.call.getD 0) s.log
  calls : ∀ call, s.call.getD 0 < call → writesOn call s.log = 0
  half : ∀ call, Happened.doneWriting call ∈ s.log → s.halfClosed = true
  segments : s.nextSegment = segmentsIn s.log + 1
  unanswered : ∀ sequence, Unanswered sequence s.log → s.finalizing = some sequence
  measured : ∀ {call sequence offset samples : ℕ} {short : Bool},
    Happened.wrote call sequence (.audio offset samples short) ∈ s.log →
      s.ready.isSome ∧ short = World.isShort s samples
  order : Lawful InOrder s.log

/-- The counters are as before, and nothing was written. -/
structure Hushed (s s' : Session) : Prop where
  sampleRateHz : s'.sampleRateHz = s.sampleRateHz
  call : s'.call = s.call
  sent : s'.sent = s.sent
  halfClosed : s'.halfClosed = s.halfClosed
  finalizing : s'.finalizing = s.finalizing
  samplesSent : s'.samplesSent = s.samplesSent
  shortFrame : s'.shortFrame = s.shortFrame
  nextSegment : s'.nextSegment = s.nextSegment
  ready : s.ready.isSome → s'.ready = s.ready
  ended : s.ended = true → s'.ended = true
  log : ∃ more, s'.log = s.log ++ more ∧ ∀ x ∈ more, Idle x

theorem SameSend.hushed (h : SameSend s s') : Hushed s s' := by
  obtain ⟨more, hlog, hstill⟩ := h.log
  exact ⟨h.sampleRateHz, h.call, h.sent, h.halfClosed, h.finalizing, h.samplesSent, h.shortFrame,
    h.nextSegment, h.ready, h.ended, more, hlog, fun x hx => idle_still (hstill x hx)⟩

theorem Hushed.trans {s₁ : Session} (h₁ : Hushed s s₁) (h₂ : Hushed s₁ s') : Hushed s s' := by
  obtain ⟨more₁, hlog₁, hidle₁⟩ := h₁.log
  obtain ⟨more₂, hlog₂, hidle₂⟩ := h₂.log
  refine ⟨h₂.sampleRateHz.trans h₁.sampleRateHz, h₂.call.trans h₁.call, h₂.sent.trans h₁.sent,
    h₂.halfClosed.trans h₁.halfClosed, h₂.finalizing.trans h₁.finalizing,
    h₂.samplesSent.trans h₁.samplesSent, h₂.shortFrame.trans h₁.shortFrame,
    h₂.nextSegment.trans h₁.nextSegment, fun hready => ?_, fun he => h₂.ended (h₁.ended he),
    more₁ ++ more₂, ?_, ?_⟩
  · have hready₁ := h₁.ready hready
    exact (h₂.ready (by rwa [hready₁])).trans hready₁
  · rw [hlog₂, hlog₁, List.append_assoc]
  · intro x hx
    rcases List.mem_append.1 hx with hx | hx
    · exact hidle₁ x hx
    · exact hidle₂ x hx

theorem Hushed.refl (s : Session) : Hushed s s := (SameSend.refl s).hushed

theorem Hushed.left (s : Session) (n : ℕ) (returns : Bool) : Hushed s (s.left n returns) := by
  have hidle : Idle (if returns then .returned n else .raised n) := by
    rcases returns with - | -
    · exact idle_still trivial
    · exact idle_still trivial
  have hmore : ∀ x ∈ [if returns then Happened.returned n else .raised n], Idle x := by
    intro x hx
    rwa [List.mem_singleton.1 hx]
  unfold Session.left
  split
  · exact ⟨rfl, rfl, rfl, rfl, rfl, rfl, rfl, rfl, fun _ => rfl, id, _, rfl, hmore⟩
  · exact ⟨rfl, rfl, rfl, rfl, rfl, rfl, rfl, rfl, fun _ => rfl, id, _, rfl, hmore⟩

/-- A frame that was measured stays so. -/
theorem isShort_same (hrate : s'.sampleRateHz = s.sampleRateHz) (hready : s'.ready = s.ready)
    (samples : ℕ) : World.isShort s' samples = World.isShort s samples := by
  unfold World.isShort
  rw [hready, hrate]

/-- The counters and the log are the same. -/
theorem Counted.same (h : Counted s) (hcall : s'.call = s.call) (hsent : s'.sent = s.sent)
    (hhalf : s'.halfClosed = s.halfClosed) (hsegment : s'.nextSegment = s.nextSegment)
    (hfinalizing : s'.finalizing = s.finalizing) (hready : s'.ready = s.ready)
    (hrate : s'.sampleRateHz = s.sampleRateHz) (hlog : s'.log = s.log) : Counted s' := by
  refine ⟨?_, ?_, ?_, ?_, ?_, fun hin => ?_, ?_⟩
  · rw [hsent, hcall, hlog]
    exact h.sequence
  · rw [hcall, hlog]
    exact h.calls
  · rw [hhalf, hlog]
    exact h.half
  · rw [hsegment, hlog]
    exact h.segments
  · rw [hfinalizing, hlog]
    exact h.unanswered
  · rw [hlog] at hin
    rw [isShort_same hrate hready, hready]
    exact h.measured hin
  · rw [hlog]
    exact h.order

theorem Counted.hushed (h : Counted s) (hs : Hushed s s') : Counted s' := by
  obtain ⟨more, hlog, hidle⟩ := hs.log
  refine ⟨?_, fun call hcall => ?_, fun call hin => ?_, ?_, fun sequence hq => ?_,
    fun {call _ _ samples _} hin => ?_, ?_⟩
  · rw [hs.sent, hs.call, hlog, writesOn_idle _ hidle]
    exact h.sequence
  · rw [hs.call] at hcall
    rw [hlog, writesOn_idle _ hidle]
    exact h.calls call hcall
  · rw [hlog] at hin
    rw [hs.halfClosed]
    rcases List.mem_append.1 hin with hin | hin
    · exact h.half call hin
    · exact absurd rfl ((hidle _ hin).half call)
  · rw [hs.nextSegment, hlog, segmentsIn_idle hidle]
    exact h.segments
  · rw [hlog, unanswered_idle _ hidle] at hq
    rw [hs.finalizing]
    exact h.unanswered sequence hq
  · rw [hlog] at hin
    rcases List.mem_append.1 hin with hin | hin
    · obtain ⟨hready, hshort⟩ := h.measured hin
      have hsame := hs.ready hready
      rw [isShort_same hs.sampleRateHz hsame, hsame]
      exact ⟨hready, hshort⟩
    · exact absurd ((hidle _ hin).on call) (by simp [Happened.isOn])
  · rw [hlog]
    exact h.order.append fun x hx => (hidle x hx).order

/-! ## Writing -/

/-- **An event is written**: what that makes of the counters. -/
structure Wrote (s s' : Session) (body : ClientBody) : Prop where
  unended : s.ended = false
  open_half : s.halfClosed = false
  call : s'.call = s.call
  sent : s'.sent = s.sent + 1
  halfClosed : s'.halfClosed = s.halfClosed
  finalizing : s'.finalizing = if body = .finalize then some (s.sent + 1) else s.finalizing
  samplesSent : s'.samplesSent = s.samplesSent
  shortFrame : s'.shortFrame = s.shortFrame
  sampleRateHz : s'.sampleRateHz = s.sampleRateHz
  ready : s'.ready = s.ready
  ended : s'.ended = s.ended
  inputGate : s'.inputGate = s.inputGate
  nextSegment : s'.nextSegment = s.nextSegment + if body.isSegment then 1 else 0
  log : s'.log = s.log ++ [.wrote (s.call.getD 0) (s.sent + 1) body]

theorem wrote_beginWrite {who : Writer} {body : ClientBody} {charge : Option ℕ}
    (hsegment : body.isSegment = false)
    (h : s.beginWrite who body charge = some s') : Wrote s s' body := by
  obtain ⟨hended, hhalf, unaccepted, lastInput, rfl⟩ := beginWrite_eq h
  refine ⟨hended, hhalf, rfl, rfl, rfl, rfl, rfl, rfl, rfl, rfl, rfl, rfl, ?_, rfl⟩
  rw [hsegment]
  rfl

theorem wrote_task {n offset : ℕ} {work : Work} (hwork : work ≠ .close)
    (h : s.beginWrite (.task n) (World.bodyOf s offset work) (World.chargeOf work) = some s') :
    Wrote s (World.sending s' work) (World.bodyOf s offset work) := by
  obtain ⟨hended, hhalf, unaccepted, lastInput, hs'⟩ := beginWrite_eq h
  obtain ⟨text, heq⟩ := sending_eq s' work
  have hsegment : work.segments =
      if (World.bodyOf s offset work).isSegment then 1 else 0 := by
    cases work with
    | close => exact absurd rfl hwork
    | _ => rfl
  rw [heq, hs', hsegment]
  exact ⟨hended, hhalf, rfl, rfl, rfl, rfl, rfl, rfl, rfl, rfl, rfl, rfl, rfl, rfl⟩

theorem isOn_wrote (call c q : ℕ) (body : ClientBody) :
    (Happened.wrote c q body).isOn call = decide (c = call) := rfl

theorem unanswered_wrote {log : List Happened} {call sequence q : ℕ} {body : ClientBody}
    (h : Unanswered sequence (log ++ [.wrote call q body])) :
    Unanswered sequence log ∨ body = .finalize ∧ q = sequence := by
  rcases pending_append_singleton.1 h with ⟨c, heq⟩ | ⟨hq, -⟩
  · obtain ⟨-, rfl, rfl⟩ := Happened.wrote.inj heq
    exact .inr ⟨rfl, rfl⟩
  · exact .inl hq

/-- A write of what is in order is counted. -/
theorem Counted.wrote (h : Counted s) {body : ClientBody} (hw : Wrote s s' body)
    (hopening : body ≠ .opening) (hsent : 0 < s.sent)
    (hinput : body.isInput = true → s.finalizing = none)
    (haudio : ∀ {offset samples : ℕ} {short : Bool}, body = .audio offset samples short →
      offset = samplesIn s.log ∧ ¬EndsShort s.log)
    (hsegment : ∀ {id : ℕ}, body = .textSegment id → id = s.nextSegment)
    (hmeasured : ∀ {offset samples : ℕ} {short : Bool}, body = .audio offset samples short →
      s.ready.isSome ∧ short = World.isShort s samples) : Counted s' := by
  have hone : writesOn (s.call.getD 0) [.wrote (s.call.getD 0) (s.sent + 1) body] = 1 := by
    unfold writesOn
    rw [List.countP_singleton, isOn_wrote, decide_eq_true rfl]
    rfl
  refine ⟨?_, fun call hcall => ?_, fun call hin => ?_, ?_, fun sequence hq => ?_, fun hin => ?_, ?_⟩
  · rw [hw.sent, hw.call, hw.log, writesOn_append, hone, h.sequence]
  · rw [hw.call] at hcall
    have hnot : s.call.getD 0 ≠ call := by omega
    have hzero : writesOn call [.wrote (s.call.getD 0) (s.sent + 1) body] = 0 := by
      unfold writesOn
      rw [List.countP_singleton, isOn_wrote, decide_eq_false hnot]
      rfl
    rw [hw.log, writesOn_append, hzero, h.calls call hcall]
  · rw [hw.log, List.mem_append, List.mem_singleton] at hin
    rcases hin with hin | hin
    · rw [hw.halfClosed]
      exact h.half call hin
    · exact absurd hin (by simp)
  · rw [hw.nextSegment, h.segments, hw.log, segmentsIn_append]
    have hcount : segmentsIn [.wrote (s.call.getD 0) (s.sent + 1) body] =
        if body.isSegment then 1 else 0 := by
      unfold segmentsIn
      rw [List.countP_singleton]
      rfl
    rw [hcount]
    omega
  · rw [hw.log] at hq
    rw [hw.finalizing]
    rcases unanswered_wrote hq with hold | ⟨hfinalize, rfl⟩
    · have hfinalizing := h.unanswered sequence hold
      have hnot : body ≠ .finalize := by
        rintro rfl
        exact absurd (hfinalizing.symm.trans (hinput rfl)) (by simp)
      rwa [if_neg hnot]
    · rw [if_pos hfinalize]
  · rw [hw.log, List.mem_append, List.mem_singleton] at hin
    rw [isShort_same hw.sampleRateHz hw.ready, hw.ready]
    rcases hin with hin | hin
    · exact h.measured hin
    · exact hmeasured (Happened.wrote.inj hin).2.2.symm
  · rw [hw.log, lawful_append_singleton]
    refine ⟨h.order, ?_, ?_, fun call hin => ?_, fun hin earlier hearlier => ?_, haudio, ?_⟩
    · rw [h.sequence]
    · constructor
      · exact fun hopen => absurd hopen hopening
      · intro hfirst
        omega
    · exact absurd (hw.open_half.symm.trans (h.half call hin)) (by simp)
    · exact absurd ((h.unanswered earlier hearlier).symm.trans (hinput hin)) (by simp)
    · intro id hid
      rw [hsegment hid, h.segments]

/-- **A call is made, and its Open written first.** -/
theorem Counted.connects (h : Counted w.session) (hheld : Held w) (hc : Connects w w') :
    Counted w'.session := by
  have hhalf : w.session.halfClosed = false := by
    refine Bool.eq_false_iff.2 fun hclosed => ?_
    have hready := hheld.halfClosed hclosed
    rw [hc.unready] at hready
    exact absurd hready (by simp)
  have hsent : w'.session.sent = 1 := by
    rw [hc.sent]
    split
    · rfl
    · rename_i hnone
      rw [hheld.unopened (by simpa using hnone)]
  have hfinalizing : ∀ sequence, Unanswered sequence w'.session.log →
      Unanswered sequence w.session.log := by
    intro sequence hq
    rw [hc.log, List.append_cons] at hq
    rcases unanswered_wrote hq with hold | ⟨hbody, -⟩
    · refine (unanswered_idle sequence fun x hx => ?_).1 hold
      rw [List.mem_singleton.1 hx]
      exact ⟨fun _ => rfl, rfl, rfl, rfl, rfl, fun _ ⟨_, heq⟩ => absurd heq nofun, nofun, nofun,
        fun _ => trivial⟩
    · exact absurd hbody (by simp)
  have hnone : writesOn (w.session.call.getD 0 + 1)
      (w.session.log ++ [.connected (w.session.call.getD 0 + 1)]) = 0 := by
    rw [writesOn_append, h.calls _ (Nat.lt_succ_self _)]
    rfl
  refine ⟨?_, fun call hcall => ?_, fun call hin => ?_, ?_, fun sequence hq => ?_, fun hin => ?_, ?_⟩
  · rw [hc.call, hc.log, List.append_cons, writesOn_append, Option.getD_some, hnone, hsent]
    unfold writesOn
    rw [List.countP_singleton, isOn_wrote, decide_eq_true rfl]
    rfl
  · rw [hc.call, Option.getD_some] at hcall
    have hold : w.session.call.getD 0 < call := by omega
    have hnot : w.session.call.getD 0 + 1 ≠ call := by omega
    rw [hc.log, writesOn_append, h.calls call hold]
    unfold writesOn
    rw [List.countP_cons, List.countP_singleton, isOn_wrote, decide_eq_false hnot]
    rfl
  · rw [hc.log, List.mem_append] at hin
    rcases hin with hin | hin
    · exact absurd (hhalf.symm.trans (h.half call hin)) (by simp)
    · simp only [List.mem_cons, List.not_mem_nil, or_false] at hin
      rcases hin with hin | hin
      · exact absurd hin (by simp)
      · exact absurd hin (by simp)
  · rw [hc.nextSegment, hc.log, segmentsIn_append, h.segments]
    rfl
  · rw [hc.finalizing]
    exact h.unanswered sequence (hfinalizing sequence hq)
  · rw [hc.log, List.mem_append] at hin
    rcases hin with hin | hin
    · have hready := (h.measured hin).1
      rw [hc.unready] at hready
      exact absurd hready (by simp)
    · simp only [List.mem_cons, List.not_mem_nil, or_false] at hin
      rcases hin with hin | hin
      · exact absurd hin (by simp)
      · exact absurd hin (by simp)
  · rw [hc.log, List.append_cons, lawful_append_singleton, lawful_append_singleton]
    refine ⟨⟨h.order, trivial⟩, ?_, ?_, fun call hin => ?_, nofun, nofun, nofun⟩
    · rw [hnone, hsent]
    · exact iff_of_true rfl hsent
    · rw [List.mem_append, List.mem_singleton] at hin
      rcases hin with hin | hin
      · exact absurd (hhalf.symm.trans (h.half call hin)) (by simp)
      · exact absurd hin (by simp)

/-- The answer to the Finalize that waits is read. -/
theorem Counted.answers {sequence : ℕ} (h : Counted w.session) (ha : Answers w w' sequence) :
    Counted w'.session := by
  obtain ⟨s, hs, heq⟩ := ha.session
  have hcounted := h.hushed hs.hushed
  have hfinalizing : s.finalizing = some sequence := hs.finalizing.trans ha.finalizing
  rw [heq]
  refine ⟨?_, fun call hcall => ?_, fun call hin => ?_, ?_, fun q hq => ?_, fun hin => ?_, ?_⟩
  · show s.sent = writesOn _ (s.log ++ [_])
    rw [writesOn_append, hcounted.sequence]
    rfl
  · show writesOn call (s.log ++ [_]) = 0
    rw [writesOn_append, hcounted.calls call hcall]
    rfl
  · rcases List.mem_append.1 hin with hin | hin
    · exact hcounted.half call hin
    · exact absurd (List.mem_singleton.1 hin) (by simp)
  · show s.nextSegment = segmentsIn (s.log ++ [_]) + 1
    rw [segmentsIn_append, hcounted.segments]
    rfl
  · rcases pending_append_singleton.1 hq with ⟨call, hbad⟩ | ⟨hold, hnot⟩
    · exact absurd hbad (by simp)
    · have hsame := Option.some.inj ((hcounted.unanswered q hold).symm.trans hfinalizing)
      rw [hsame] at hnot
      exact absurd rfl hnot
  · rcases List.mem_append.1 hin with hin | hin
    · exact hcounted.measured hin
    · exact absurd (List.mem_singleton.1 hin) (by simp)
  · show Lawful InOrder (s.log ++ [_])
    rw [lawful_append_singleton]
    exact ⟨hcounted.order, trivial⟩

theorem Counted.halfCloses (h : Counted s) {who : Writer} : Counted
    ({ s with halfClosed := true, pingerStopped := true, writeLock := some who }.note
      (.doneWriting (s.call.getD 0))) := by
  refine ⟨?_, fun call hcall => ?_, fun _ _ => rfl, ?_, fun q hq => ?_, fun hin => ?_, ?_⟩
  · show s.sent = writesOn _ (s.log ++ [_])
    rw [writesOn_append, h.sequence]
    rfl
  · show writesOn call (s.log ++ [_]) = 0
    rw [writesOn_append, h.calls call hcall]
    rfl
  · show s.nextSegment = segmentsIn (s.log ++ [_]) + 1
    rw [segmentsIn_append, h.segments]
    rfl
  · rcases pending_append_singleton.1 hq with ⟨call, hbad⟩ | ⟨hold, -⟩
    · exact absurd hbad (by simp)
    · exact h.unanswered q hold
  · rcases List.mem_append.1 hin with hin | hin
    · exact h.measured hin
    · exact absurd (List.mem_singleton.1 hin) (by simp)
  · show Lawful InOrder (s.log ++ [_])
    rw [lawful_append_singleton]
    exact ⟨h.order, trivial⟩

end Sdk

end Tensorplate
