import Tensorplate.Sdk.Order

/-!
# The pace of the inputs

Between the check of an input and its write the session's samples, its short
frame and its Finalize stand still, for the input holds the gate. So what a
task found at its check is true when it writes.
-/

namespace Tensorplate

namespace Sdk

open Lib

variable {w w' : World} {s s' : Session}

def Work.isAudio : Work → Bool
  | .sendAudio .. => true
  | _ => false

def Stage.isWrite : Stage → Bool
  | .writing _ => true
  | .ending => true
  | _ => false

/-- The samples of the Audio the task writes. -/
def Task.aloft (t : Task) : Option ℕ :=
  match t.work with
  | .sendAudio _ samples => if t.stage.isWrite then some samples else none
  | _ => none

/-- **The Audio that is being written**, by its samples. -/
def World.aloft (w : World) : Option ℕ := w.session.inputGate.bind fun n => (w.tasks n).aloft

/-- The task has an input checked and not yet written. -/
def Task.isDue (t : Task) : Bool :=
  t.work.isInput && match t.stage with
    | .credit => true
    | .lock _ => true
    | _ => false

/-- **What a task has found is true.** -/
structure Fits (s : Session) (t : Task) : Prop where
  ready : t.isDue = true → s.ready.isSome
  due : t.isDue = true → s.finalizing = none
  short : t.isDue = true → t.work.isAudio = true → s.shortFrame = false
  offset : ∀ {offset : ℕ}, t.work.isAudio = true → t.stage = .lock offset →
    offset = s.samplesSent
  finalized : t.work = .finalize → t.stage.isWrite = true → ¬EndsShort s.log

/-- **The samples and the short frame are those of the log**, the Audio that
is being written apart, while the session lasts. -/
structure Paced (w : World) : Prop where
  samples : w.session.ended = false →
    w.session.samplesSent + w.aloft.getD 0 = samplesIn w.session.log
  short : w.session.ended = false → EndsShort w.session.log →
    w.aloft.elim (w.session.shortFrame = true) fun k => World.isShort w.session k = true
  tasks : ∀ n, Fits w.session (w.tasks n)

/-! ## Sessions alike -/

/-- The inputs do not see the difference between two sessions. -/
structure Alike (s s' : Session) : Prop where
  sampleRateHz : s'.sampleRateHz = s.sampleRateHz
  finalizing : s.finalizing = none → s'.finalizing = none
  samplesSent : s'.samplesSent = s.samplesSent
  shortFrame : s'.shortFrame = s.shortFrame
  ready : s.ready.isSome → s'.ready = s.ready
  ended : s.ended = true → s'.ended = true
  samples : samplesIn s'.log = samplesIn s.log
  short : EndsShort s'.log ↔ EndsShort s.log

theorem Hushed.alike (h : Hushed s s') : Alike s s' := by
  obtain ⟨more, hlog, hidle⟩ := h.log
  refine ⟨h.sampleRateHz, fun hf => h.finalizing.trans hf, h.samplesSent, h.shortFrame, h.ready,
    h.ended, ?_, ?_⟩
  · rw [hlog, samplesIn_idle hidle]
  · rw [hlog, endsShort_idle hidle]

theorem Alike.trans {s₁ : Session} (h₁ : Alike s s₁) (h₂ : Alike s₁ s') : Alike s s' := by
  refine ⟨h₂.sampleRateHz.trans h₁.sampleRateHz, fun hf => h₂.finalizing (h₁.finalizing hf),
    h₂.samplesSent.trans h₁.samplesSent, h₂.shortFrame.trans h₁.shortFrame, fun hready => ?_,
    fun he => h₂.ended (h₁.ended he), h₂.samples.trans h₁.samples, h₂.short.trans h₁.short⟩
  have hready₁ := h₁.ready hready
  exact (h₂.ready (by rwa [hready₁])).trans hready₁

theorem Alike.unended (h : Alike s s') (hended : s'.ended = false) : s.ended = false := by
  refine Bool.eq_false_iff.2 fun he => ?_
  exact absurd (hended.symm.trans (h.ended he)) (by simp)

theorem Alike.isShort (h : Alike s s') {k : ℕ} (hs : World.isShort s k = true) :
    World.isShort s' k = true := by
  unfold World.isShort at hs ⊢
  split at hs
  · exact absurd hs Bool.false_ne_true
  · rename_i limits hready
    have hsome : s.ready.isSome := by
      rw [hready]
      rfl
    rw [h.ready hsome, hready, h.sampleRateHz]
    exact hs

theorem Fits.alike {t : Task} (h : Fits s t) (hs : Alike s s') : Fits s' t := by
  refine ⟨fun hdue => ?_, fun hdue => hs.finalizing (h.due hdue), fun hdue ha => ?_,
    fun ha hstage => ?_, fun hwork hstage => ?_⟩
  · rw [hs.ready (h.ready hdue)]
    exact h.ready hdue
  · rw [hs.shortFrame]
    exact h.short hdue ha
  · rw [hs.samplesSent]
    exact h.offset ha hstage
  · rw [hs.short]
    exact h.finalized hwork hstage

/-- One entry that is neither an Audio nor a Finalize makes no difference. -/
theorem endsShort_other {log : List Happened} {x : Happened} (hshort : x.isShortAudio = false)
    (hfinalize : x.isFinalize = false) : EndsShort (log ++ [x]) ↔ EndsShort log := by
  refine pending_append fun y hy => ?_
  rw [List.mem_singleton.1 hy, hshort, hfinalize]
  exact ⟨Bool.false_ne_true, Bool.false_ne_true⟩

theorem samplesIn_other {log : List Happened} {x : Happened} (hx : x.samples = 0) :
    samplesIn (log ++ [x]) = samplesIn log := by
  have hzero : samplesIn [x] = 0 := by
    show x.samples + 0 = 0
    rw [hx]
  rw [samplesIn_append, hzero, Nat.add_zero]

/-- What is written beside the inputs, and a segment, leave the session alike. -/
theorem Wrote.alike {body : ClientBody} (h : Wrote s s' body)
    (haudio : ∀ offset samples short, body ≠ .audio offset samples short)
    (hfinalize : body ≠ .finalize) : Alike s s' := by
  refine ⟨h.sampleRateHz, fun hf => ?_, h.samplesSent, h.shortFrame, fun _ => h.ready, fun he => ?_,
    ?_, ?_⟩
  · rw [h.finalizing, if_neg hfinalize]
    exact hf
  · rw [h.ended]
    exact he
  · rw [h.log]
    refine samplesIn_other ?_
    cases body with
    | audio offset samples short => exact absurd rfl (haudio offset samples short)
    | _ => rfl
  · rw [h.log]
    cases body with
    | audio offset samples short => exact absurd rfl (haudio offset samples short)
    | finalize => exact absurd rfl hfinalize
    | _ => exact endsShort_other rfl rfl

/-! ## Worlds -/

theorem Paced.alike (h : Paced w) (hs : Alike w.session w'.session)
    (haloft : w'.session.ended = false → w'.aloft = w.aloft)
    (htasks : ∀ n, Fits w'.session (w'.tasks n)) : Paced w' := by
  refine ⟨fun hended => ?_, fun hended hshort => ?_, htasks⟩
  · rw [haloft hended, hs.samplesSent, hs.samples]
    exact h.samples (hs.unended hended)
  · have hold := h.short (hs.unended hended) (hs.short.1 hshort)
    rw [haloft hended]
    rcases ha : w.aloft with - | k
    · rw [ha] at hold
      exact hs.shortFrame.trans hold
    · rw [ha] at hold
      exact hs.isShort hold

/-- No task sees the step. -/
theorem Paced.quiet (h : Paced w) (hs : Alike w.session w'.session) (htasks : w'.tasks = w.tasks)
    (hgate : w'.session.inputGate = w.session.inputGate) : Paced w' := by
  refine h.alike hs (fun _ => ?_) fun n => ?_
  · unfold World.aloft
    rw [htasks, hgate]
  · rw [htasks]
    exact (h.tasks n).alike hs

/-- One task moves. -/
theorem Paced.put (h : Paced w) {n : ℕ} {t : Task} (hs : Alike w.session s)
    (haloft : s.ended = false → (w.put s n t).aloft = w.aloft) (ht : Fits s t) :
    Paced (w.put s n t) := by
  refine h.alike hs haloft fun m => ?_
  unfold World.put
  dsimp only
  by_cases hmn : m = n
  · subst hmn
    rw [Function.update_self]
    exact ht
  · rw [Function.update_of_ne hmn]
    exact (h.tasks m).alike hs

theorem aloft_put (w : World) (s : Session) (n : ℕ) (t : Task) : (w.put s n t).aloft =
    s.inputGate.bind fun m => if m = n then t.aloft else (w.tasks m).aloft := by
  unfold World.aloft World.put
  dsimp only
  congr 1
  funext m
  by_cases hmn : m = n
  · subst hmn
    rw [Function.update_self, if_pos rfl]
  · rw [Function.update_of_ne hmn, if_neg hmn]

/-- A task that stays where it is to the gate. -/
theorem aloft_same {n : ℕ} {t : Task} (hgate : s.inputGate = w.session.inputGate)
    (ht : t.aloft = (w.tasks n).aloft) : (w.put s n t).aloft = w.aloft := by
  rw [aloft_put, hgate]
  unfold World.aloft
  congr 1
  funext m
  split
  · rename_i hmn
    rw [ht, hmn]
  · rfl

/-- A task that gives the gate back with no Audio in its hands. -/
theorem aloft_left {n : ℕ} {t : Task} {returns : Bool}
    (hgate : s.inputGate = w.session.inputGate) (hn : (w.tasks n).aloft = none) :
    (w.put (s.left n returns) n t).aloft = w.aloft := by
  rw [aloft_put]
  unfold World.aloft Session.left
  rw [← hgate]
  split
  · rename_i hin
    rw [hin, Option.bind_some, hn]
    rfl
  · rename_i hnot
    show (s.inputGate.bind fun m => _) = _
    rcases hg : s.inputGate with - | m
    · rfl
    · have hmn : m ≠ n := by
        rintro rfl
        exact hnot hg
      rw [Option.bind_some, Option.bind_some, if_neg hmn]

theorem aloft_of_stage {t : Task} (h : t.stage.isWrite = false) : t.aloft = none := by
  unfold Task.aloft
  split
  · rw [h]
    rfl
  · rfl

theorem aloft_of_work {t : Task} (h : t.work.isAudio = false) : t.aloft = none := by
  unfold Task.aloft
  split
  · rename_i hwork
    rw [hwork] at h
    exact absurd h (by simp [Work.isAudio])
  · rfl

/-- A task with no input ahead of it. -/
theorem fits_idle {t : Task} (hdue : t.isDue = false) (hwrite : t.work = .finalize →
    t.stage.isWrite = false) : Fits s t := by
  have hnot : ¬t.isDue = true := fun h => absurd (hdue.symm.trans h) (by simp)
  refine ⟨fun h => absurd h hnot, fun h => absurd h hnot, fun h => absurd h hnot,
    fun {offset} ha hstage => ?_, fun hwork hstage => ?_⟩
  · have hinput : t.work.isInput = true := by
      cases hwork : t.work with
      | sendAudio bytes samples => rfl
      | _ =>
        rw [hwork] at ha
        exact absurd ha (by simp [Work.isAudio])
    unfold Task.isDue at hdue
    rw [hinput, hstage] at hdue
    exact absurd hdue (by simp)
  · exact absurd ((hwrite hwork).symm.trans hstage) (by simp)

theorem fits_stage {t : Task} {stage : Stage} (hwrite : stage.isWrite = false)
    (hwaits : stage ≠ .credit ∧ ∀ offset, stage ≠ .lock offset) :
    Fits s { t with stage := stage } := by
  refine fits_idle ?_ fun _ => hwrite
  unfold Task.isDue
  cases stage with
  | credit => exact absurd rfl hwaits.1
  | lock offset => exact absurd rfl (hwaits.2 offset)
  | _ => exact Bool.and_false _

/-- A task outside the gate. -/
theorem fits_out {t : Task} (h : t.inGate = false) : Fits s t := by
  unfold Task.inGate at h
  refine fits_idle ?_ fun hwork => ?_
  · unfold Task.isDue
    rcases hinput : t.work.isInput with - | -
    · rfl
    · rw [hinput, Bool.true_and] at h
      rw [Bool.true_and]
      cases hstage : t.stage with
      | credit =>
        rw [hstage] at h
        exact absurd h (by simp)
      | lock offset =>
        rw [hstage] at h
        exact absurd h (by simp)
      | _ => rfl
  · rw [hwork] at h
    cases hstage : t.stage with
    | writing sequence =>
      rw [hstage] at h
      exact absurd h (by simp [Work.isInput])
    | ending =>
      rw [hstage] at h
      exact absurd h (by simp [Work.isInput])
    | _ => rfl

/-- Behind the gate there is one task. -/
theorem Gated.out (h : Gated w) {m n : ℕ} (hn : (w.tasks n).inGate = true) (hmn : m ≠ n) :
    (w.tasks m).inGate = false := by
  refine Bool.eq_false_iff.2 fun hm => hmn ?_
  exact Option.some.inj ((h m hm).symm.trans (h n hn))

/-! ## The steps of a task -/

theorem inGate_of {t : Task} (hinput : t.work.isInput = true) (hstage : t.stage.isWrite = true ∨
    t.stage = .unanswered ∨ t.stage = .credit ∨ (∃ offset, t.stage = .lock offset)) :
    t.inGate = true := by
  unfold Task.inGate
  rw [hinput, Bool.true_and]
  rcases hstage with hstage | hstage | hstage | ⟨offset, hstage⟩
  · cases hs : t.stage with
    | writing sequence => rfl
    | ending => rfl
    | _ => exact absurd hstage (by rw [hs]; simp [Stage.isWrite])
  · rw [hstage]
  · rw [hstage]
  · rw [hstage]

theorem refuses_ready {t : Task} (h : World.refuses s t.work = false) (hinput : t.work.isInput = true) :
    s.ready.isSome := by
  cases hwork : t.work with
  | sendAudio bytes samples =>
    rw [hwork] at h
    unfold World.refuses at h
    cases hready : s.ready with
    | none =>
      rw [hready] at h
      cases h
    | some _ => rfl
  | sendText bytes =>
    rw [hwork] at h
    unfold World.refuses at h
    cases hready : s.ready with
    | none =>
      rw [hready] at h
      cases h
    | some _ => rfl
  | finalize =>
    rw [hwork] at h
    have hcheck : s.checkSending = true := by simpa [World.refuses] using h
    unfold Session.checkSending at hcheck
    rw [Bool.and_eq_true, Bool.and_eq_true] at hcheck
    exact hcheck.1.1
  | close =>
    rw [hwork] at hinput
    exact absurd hinput (by simp [Work.isInput])
  | cancel =>
    rw [hwork] at hinput
    exact absurd hinput (by simp [Work.isInput])

theorem refuses_audio {t : Task} (h : World.refuses s t.work = false) (ha : t.work.isAudio = true) :
    s.shortFrame = false := by
  cases hwork : t.work with
  | sendAudio bytes samples =>
    rw [hwork] at h
    unfold World.refuses at h
    dsimp only at h
    split at h
    · exact absurd h (by simp)
    · simp only [Bool.or_eq_false_iff] at h
      exact h.1.2
  | _ =>
    rw [hwork] at ha
    exact absurd ha (by simp [Work.isAudio])

/-- **An Audio is written** by the task behind the gate. -/
theorem Paced.writesAudio (h : Paced w) (hgated : Gated w) {n bytes samples offset sequence : ℕ}
    {short : Bool} (hwork : (w.tasks n).work = .sendAudio bytes samples)
    (hstage : (w.tasks n).stage = .lock offset)
    (hw : Wrote w.session s (.audio offset samples short))
    (hshort : short = World.isShort w.session samples) :
    Paced (w.put s n { w.tasks n with stage := .writing sequence }) := by
  have hin : (w.tasks n).inGate = true := by
    refine inGate_of ?_ (.inr (.inr (.inr ⟨offset, hstage⟩)))
    rw [hwork]
    rfl
  have hgate := hgated n hin
  have haloft : w.aloft = none := by
    unfold World.aloft
    rw [hgate, Option.bind_some]
    exact aloft_of_stage (by rw [hstage]; rfl)
  have hnew : (w.put s n { w.tasks n with stage := .writing sequence }).aloft = some samples := by
    rw [aloft_put, hw.inputGate, hgate, Option.bind_some, if_pos rfl]
    unfold Task.aloft
    rw [hwork]
    rfl
  refine ⟨fun hended => ?_, fun hended hends => ?_, fun m => ?_⟩
  · rw [hnew]
    show s.samplesSent + samples = samplesIn s.log
    have hold := h.samples hw.unended
    rw [haloft] at hold
    rw [hw.samplesSent, hw.log, samplesIn_append, ← hold]
    rfl
  · rw [hnew]
    show World.isShort s samples = true
    have hsame : World.isShort s samples = World.isShort w.session samples := by
      unfold World.isShort
      rw [hw.ready, hw.sampleRateHz]
    rw [hsame, ← hshort]
    -- a short frame before this one would have had it refused
    have hlog : EndsShort s.log := hends
    rw [hw.log] at hlog
    rcases pending_append_singleton.1 hlog with hthis | ⟨hold, -⟩
    · exact hthis
    · have hframe := h.short hw.unended hold
      rw [haloft] at hframe
      have hdue : (w.tasks n).isDue = true := by
        unfold Task.isDue
        rw [hwork, hstage]
        rfl
      have hclear := (h.tasks n).short hdue (by rw [hwork]; rfl)
      exact absurd (hclear.symm.trans hframe) (by simp)
  · unfold World.put
    dsimp only
    by_cases hmn : m = n
    · subst hmn
      rw [Function.update_self]
      refine fits_idle (Bool.and_false _) fun hbad => ?_
      rw [hwork] at hbad
      exact absurd hbad (by simp)
    · rw [Function.update_of_ne hmn]
      exact fits_out (hgated.out hin hmn)

/-- **A Finalize is written** by the task behind the gate. -/
theorem Paced.writesFinalize (h : Paced w) (hgated : Gated w) {n offset sequence : ℕ}
    (hwork : (w.tasks n).work = .finalize) (hstage : (w.tasks n).stage = .lock offset)
    (hw : Wrote w.session s .finalize) :
    Paced (w.put s n { w.tasks n with stage := .writing sequence }) := by
  have hin : (w.tasks n).inGate = true := by
    refine inGate_of ?_ (.inr (.inr (.inr ⟨offset, hstage⟩)))
    rw [hwork]
    rfl
  have hnot : ¬EndsShort s.log := by
    rw [hw.log]
    intro hends
    rcases pending_append_singleton.1 hends with hbad | ⟨-, hbad⟩
    · exact absurd hbad Bool.false_ne_true
    · exact hbad rfl
  have haloft : (w.put s n { w.tasks n with stage := .writing sequence }).aloft = w.aloft := by
    have hnone : (w.tasks n).aloft = none := aloft_of_work (by rw [hwork]; rfl)
    refine aloft_same hw.inputGate ?_
    rw [hnone]
    exact aloft_of_work (by rw [hwork]; rfl)
  refine ⟨fun hended => ?_, fun hended hends => absurd hends hnot, fun m => ?_⟩
  · rw [haloft]
    show s.samplesSent + w.aloft.getD 0 = samplesIn s.log
    rw [hw.samplesSent, h.samples hw.unended, hw.log, samplesIn_other rfl]
  · unfold World.put
    dsimp only
    by_cases hmn : m = n
    · subst hmn
      rw [Function.update_self]
      refine ⟨fun hdue => ?_, fun hdue => ?_, fun hdue => ?_, fun {offset} ha _ => ?_,
        fun _ _ => hnot⟩
      · exact absurd hdue (by simp [Task.isDue])
      · exact absurd hdue (by simp [Task.isDue])
      · exact absurd hdue (by simp [Task.isDue])
      · rw [hwork] at ha
        exact absurd ha (by simp [Work.isAudio])
    · rw [Function.update_of_ne hmn]
      exact fits_out (hgated.out hin hmn)

theorem left_gate {n : ℕ} {returns : Bool} (h : s.inputGate = some n) :
    (s.left n returns).inputGate = none := by
  unfold Session.left
  rw [if_pos h]
  rfl

theorem left_ended (s : Session) (n : ℕ) (returns : Bool) : (s.left n returns).ended = s.ended := by
  unfold Session.left
  split
  · rfl
  · rfl

/-- **The write of an Audio is over**, and its samples are counted. -/
theorem Paced.wroteAudio (h : Paced w) (hgated : Gated w) {n sequence bytes samples : ℕ}
    (hstage : (w.tasks n).stage = .writing sequence)
    (hwork : (w.tasks n).work = .sendAudio bytes samples)
    (hgate : s.inputGate = w.session.inputGate) (hlog : s.log = w.session.log)
    (hended : s.ended = w.session.ended)
    (hsamples : s.samplesSent = w.session.samplesSent + samples)
    (hframe : s.shortFrame = World.isShort w.session samples) :
    Paced (w.put (s.left n true) n { w.tasks n with stage := .returned }) := by
  have hin : (w.tasks n).inGate = true := by
    refine inGate_of ?_ (.inl ?_)
    · rw [hwork]
      rfl
    · rw [hstage]
      rfl
  have hholds := hgated n hin
  have haloft : w.aloft = some samples := by
    unfold World.aloft Task.aloft
    rw [hholds, Option.bind_some, hwork, hstage]
    rfl
  have hhush := Hushed.left s n true
  obtain ⟨more, hmore, hidle⟩ := hhush.log
  have hnone : (w.put (s.left n true) n { w.tasks n with stage := .returned }).aloft = none := by
    rw [aloft_put, left_gate (hgate.trans hholds)]
    rfl
  have hopen : (s.left n true).ended = false → w.session.ended = false := by
    intro he
    rwa [left_ended, hended] at he
  refine ⟨fun he => ?_, fun he hends => ?_, fun m => ?_⟩
  · have hold := h.samples (hopen he)
    rw [haloft] at hold
    rw [hnone]
    show (s.left n true).samplesSent + 0 = samplesIn (s.left n true).log
    rw [hhush.samplesSent, hmore, samplesIn_idle hidle, hsamples, hlog]
    exact hold
  · have hends' : EndsShort (s.left n true).log := hends
    rw [hmore, endsShort_idle hidle, hlog] at hends'
    have hold := h.short (hopen he) hends'
    rw [haloft] at hold
    rw [hnone]
    exact (hhush.shortFrame.trans hframe).trans hold
  · unfold World.put
    dsimp only
    by_cases hmn : m = n
    · subst hmn
      rw [Function.update_self]
      exact fits_stage rfl ⟨nofun, nofun⟩
    · rw [Function.update_of_ne hmn]
      exact fits_out (hgated.out hin hmn)

/-- **The write of a Finalize is over**, and the short frame is forgotten. -/
theorem Paced.wroteFinalize (h : Paced w) (hgated : Gated w) {n sequence : ℕ}
    (hstage : (w.tasks n).stage = .writing sequence) (hwork : (w.tasks n).work = .finalize) :
    Paced (w.put { w.session.endWrite with shortFrame := false, synthesisText := 0 } n
      { w.tasks n with stage := .answer sequence }) := by
  have hin : (w.tasks n).inGate = true := by
    refine inGate_of ?_ (.inl ?_)
    · rw [hwork]
      rfl
    · rw [hstage]
      rfl
  have hnot : ¬EndsShort w.session.log := (h.tasks n).finalized hwork (by rw [hstage]; rfl)
  have haloft : (w.put { w.session.endWrite with shortFrame := false, synthesisText := 0 } n
      { w.tasks n with stage := .answer sequence }).aloft = w.aloft := by
    have hnone : (w.tasks n).aloft = none := aloft_of_work (by rw [hwork]; rfl)
    refine aloft_same rfl ?_
    rw [hnone]
    exact aloft_of_work (by rw [hwork]; rfl)
  refine ⟨fun hended => ?_, fun hended hends => absurd hends hnot, fun m => ?_⟩
  · rw [haloft]
    exact h.samples hended
  · unfold World.put
    dsimp only
    by_cases hmn : m = n
    · subst hmn
      rw [Function.update_self]
      exact fits_stage rfl ⟨nofun, nofun⟩
    · rw [Function.update_of_ne hmn]
      exact fits_out (hgated.out hin hmn)

/-! ## Every step -/

/-- What a task in its write waits for is the session's end. -/
theorem Sound.ended_of_isOver (h : Sound w) {n : ℕ} (hholds : (w.tasks n).stage.holds)
    (hover : w.session.isOver = true) : w.session.ended = true := by
  unfold Session.isOver at hover
  rw [Bool.or_eq_true] at hover
  rcases hover with hended | hlost
  · exact hended
  · obtain ⟨-, hcancelling, -, -, -, -, -, hready, -⟩ := h.opens.lost hlost
    rcases h.held.writes n hholds with hr | hc
    · rw [hready] at hr
      exact absurd hr (by simp)
    · exact absurd (hcancelling.symm.trans hc) (by simp)

theorem aloft_of_waits {t : Task} (h : World.Stage.waits t.stage = true) : t.aloft = none := by
  refine aloft_of_stage ?_
  cases hstage : t.stage with
  | writing sequence => exact absurd h (by rw [hstage]; simp [World.Stage.waits])
  | ending => exact absurd h (by rw [hstage]; simp [World.Stage.waits])
  | _ => rfl

/-- **A task writes**, by what its work is. -/
theorem Paced.writes (h : Paced w) (hgated : Gated w) {n offset sequence : ℕ}
    (hstage : (w.tasks n).stage = .lock offset) (hwork : (w.tasks n).work ≠ .close)
    (hw : Wrote w.session s (World.bodyOf w.session offset (w.tasks n).work)) :
    Paced (w.put s n { w.tasks n with stage := .writing sequence }) := by
  have hlock : (w.tasks n).aloft = none := aloft_of_stage (by rw [hstage]; rfl)
  have hother : ∀ {body : ClientBody}, Wrote w.session s body → (w.tasks n).work.isAudio = false →
      (w.tasks n).work ≠ .finalize → (∀ o k b, body ≠ .audio o k b) → body ≠ .finalize →
      Paced (w.put s n { w.tasks n with stage := .writing sequence }) := by
    intro body hw haudio hfinalize hb₁ hb₂
    refine h.put (hw.alike hb₁ hb₂) (fun _ => aloft_same hw.inputGate ?_) ?_
    · rw [hlock]
      exact aloft_of_work haudio
    · exact fits_idle (Bool.and_false _) fun hbad => absurd hbad hfinalize
  cases hcase : (w.tasks n).work with
  | sendAudio bytes samples =>
    rw [hcase] at hw
    exact h.writesAudio hgated hcase hstage hw rfl
  | finalize =>
    rw [hcase] at hw
    exact h.writesFinalize hgated hcase hstage hw
  | close => exact absurd hcase hwork
  | sendText bytes =>
    rw [hcase] at hw
    exact hother hw (by rw [hcase]; rfl) (by rw [hcase]; exact nofun) nofun nofun
  | cancel =>
    rw [hcase] at hw
    exact hother hw (by rw [hcase]; rfl) (by rw [hcase]; exact nofun) nofun nofun

/-- A session whose lock is given back. -/
theorem alike_endWrite (s : Session) : Alike s s.endWrite :=
  ⟨rfl, id, rfl, rfl, fun _ => rfl, id, rfl, Iff.rfl⟩

theorem Paced.acts (h : Paced w) (hgated : Gated w) (hsound : Sound w) {n : ℕ}
    (hacts : ActsOf n w w') : Paced w' := by
  obtain ⟨s, t, hact, rfl⟩ := hacts
  have hself := (Hushed.refl w.session).alike
  have hleft : ∀ {s' : Session} {returns : Bool}, Alike w.session s' →
      Alike w.session (s'.left n returns) :=
    fun hs => hs.trans (Hushed.left _ n _).alike
  have hgone : ∀ {stage : Stage} {s' : Session}, stage.isWrite = false →
      stage ≠ .credit ∧ (∀ offset, stage ≠ .lock offset) →
      Fits s' { w.tasks n with stage := stage } := fits_stage
  have hrest : ∀ {stage : Stage}, stage.isWrite = false → (w.tasks n).aloft = none →
      Task.aloft { w.tasks n with stage := stage } = (w.tasks n).aloft := by
    intro stage hstage hnone
    rw [hnone]
    exact aloft_of_stage hstage
  cases hact with
  | called hstage hwork =>
    refine h.put hself (fun _ => aloft_same rfl ?_) (fits_idle (Bool.and_false _) fun _ => rfl)
    exact (aloft_of_stage rfl).trans (aloft_of_stage (by rw [hstage]; rfl)).symm
  | closes hstage hready =>
    refine h.put hself (fun _ => aloft_same rfl ?_) (fits_idle rfl nofun)
    exact (aloft_of_stage rfl).trans (aloft_of_stage (by rw [hstage]; rfl)).symm
  | unready hstage =>
    refine h.put (hleft hself) (fun _ => aloft_left rfl ?_) (fits_idle rfl nofun)
    exact aloft_of_stage (by rw [hstage]; rfl)
  | enters hstage hgate hcheck =>
    refine h.put ⟨rfl, id, rfl, rfl, fun _ => rfl, id, rfl, Iff.rfl⟩ (fun _ => ?_)
      (hgone rfl ⟨nofun, nofun⟩)
    have hnone : w.aloft = none := by
      unfold World.aloft
      rw [hgate]
      rfl
    rw [hnone, aloft_put]
    show (if n = n then _ else _) = _
    rw [if_pos rfl]
    exact aloft_of_stage rfl
  | shutOut hstage hgate =>
    refine h.put (hleft ⟨rfl, id, rfl, rfl, fun _ => rfl, id, rfl, Iff.rfl⟩) (fun _ => ?_)
      (hgone rfl ⟨nofun, nofun⟩)
    have hnone : w.aloft = none := by
      unfold World.aloft
      rw [hgate]
      rfl
    rw [hnone, aloft_put, left_gate rfl]
    rfl
  | raises hwaits =>
    exact h.put (hleft hself) (fun _ => aloft_left rfl (aloft_of_waits hwaits))
      (hgone rfl ⟨nofun, nofun⟩)
  | admits hstage hcancelled hfinalizing hrefuses =>
    refine h.put hself (fun _ => aloft_same rfl (hrest ?_ (aloft_of_stage (by rw [hstage]; rfl))))
      ⟨fun hdue => ?_, fun _ => hfinalizing, fun _ ha => refuses_audio hrefuses ha,
        fun ha hlock => ?_, fun _ hwrite => ?_⟩
    · split
      · rfl
      · rfl
    · unfold Task.isDue at hdue
      rw [Bool.and_eq_true] at hdue
      exact refuses_ready hrefuses hdue.1
    · split at hlock
      · rename_i hfinalize
        have ha' : (w.tasks n).work.isAudio = true := ha
        rw [hfinalize] at ha'
        exact absurd ha' (by simp [Work.isAudio])
      · exact absurd hlock (by simp)
    · split at hwrite
      · exact absurd hwrite (by simp [Stage.isWrite])
      · exact absurd hwrite (by simp [Stage.isWrite])
  | credits hstage hcancelled =>
    have hdue : Task.isDue { w.tasks n with stage := .lock w.session.samplesSent } = true →
        (w.tasks n).isDue = true := by
      intro hd
      unfold Task.isDue at hd ⊢
      rw [Bool.and_eq_true] at hd
      rw [hstage, hd.1]
      rfl
    refine h.put hself (fun _ => aloft_same rfl (hrest rfl (aloft_of_stage (by rw [hstage]; rfl))))
      ⟨fun hd => (h.tasks n).ready (hdue hd), fun hd => (h.tasks n).due (hdue hd),
        fun hd ha => (h.tasks n).short (hdue hd) ha, fun _ hlock => ?_, fun _ hwrite => ?_⟩
    · exact (Stage.lock.inj hlock).symm
    · exact absurd hwrite (by simp [Stage.isWrite])
  | writes hstage hcancelled hlock hwork hbegin =>
    exact h.writes hgated hstage hwork (wrote_task hwork hbegin)
  | halfCloses hstage hlock hwork =>
    refine h.put ⟨rfl, id, rfl, rfl, fun _ => rfl, id, samplesIn_other rfl, endsShort_other rfl rfl⟩
      (fun _ => aloft_same rfl (hrest rfl (aloft_of_stage (by rw [hstage]; rfl))))
      (hgone rfl ⟨nofun, nofun⟩)
  | awaitsEnd hstage hwork =>
    exact h.put hself (fun _ => aloft_same rfl (hrest rfl (aloft_of_stage (by rw [hstage]; rfl))))
      (hgone rfl ⟨nofun, nofun⟩)
  | wroteAudio hstage hwork => exact h.wroteAudio hgated hstage hwork rfl rfl rfl rfl rfl
  | wroteFinalize hstage hwork => exact h.wroteFinalize hgated hstage hwork
  | wroteCancel hstage hwork =>
    exact h.put (alike_endWrite _)
      (fun _ => aloft_same rfl (hrest rfl (aloft_of_work (by rw [hwork]; rfl))))
      (hgone rfl ⟨nofun, nofun⟩)
  | wroteText hstage haudio hfinalize =>
    refine h.put (hleft (alike_endWrite _)) (fun _ => aloft_left rfl (aloft_of_work ?_))
      (hgone rfl ⟨nofun, nofun⟩)
    cases hwork : (w.tasks n).work with
    | sendAudio bytes samples => exact absurd hwork (haudio bytes samples)
    | _ => rfl
  | fails hstage =>
    refine h.put ⟨rfl, id, rfl, rfl, fun _ => rfl, id, rfl, Iff.rfl⟩ (fun _ => aloft_same rfl ?_)
      ⟨fun hd => ?_, fun hd => ?_, fun hd => ?_, fun _ hlock => ?_, fun hwork _ => ?_⟩
    · unfold Task.aloft
      dsimp only
      rw [hstage]
      rfl
    · exact absurd hd (by simp [Task.isDue])
    · exact absurd hd (by simp [Task.isDue])
    · exact absurd hd (by simp [Task.isDue])
    · exact absurd hlock (by simp)
    · exact (h.tasks n).finalized hwork (by rw [hstage]; rfl)
  | closed hstage =>
    exact h.put (alike_endWrite _)
      (fun _ => aloft_same rfl (hrest rfl (aloft_of_stage (by rw [hstage]; rfl))))
      (hgone rfl ⟨nofun, nofun⟩)
  | endsFailed hstage hover =>
    refine h.put (hleft (alike_endWrite _)) (fun hended => ?_) (hgone rfl ⟨nofun, nofun⟩)
    have hover' := hsound.ended_of_isOver (by rw [hstage]; rfl) hover
    rw [left_ended] at hended
    exact absurd (hended.symm.trans hover') (by simp)
  | endsCancel hstage hwork =>
    exact h.put (alike_endWrite _)
      (fun _ => aloft_same rfl (hrest rfl (aloft_of_work (by rw [hwork]; rfl))))
      (hgone rfl ⟨nofun, nofun⟩)
  | answered hstage hanswer =>
    exact h.put (hleft hself) (fun _ => aloft_left rfl (aloft_of_stage (by rw [hstage]; rfl)))
      (hgone rfl ⟨nofun, nofun⟩)
  | @ended returns hstage =>
    refine h.put (hleft hself) (fun _ => aloft_left rfl (aloft_of_stage (by rw [hstage]; rfl)))
      (hgone ?_ ?_)
    · split
      · rfl
      · rfl
    · split
      · exact ⟨nofun, nofun⟩
      · exact ⟨nofun, nofun⟩
  | leaves hsame hcancelled =>
    refine h.put hsame.hushed.alike (fun _ => aloft_same hsame.inputGate rfl) ?_
    have hold := (h.tasks n).alike hsame.hushed.alike
    exact ⟨hold.ready, hold.due, hold.short, hold.offset, hold.finalized⟩

end Sdk

end Tensorplate
