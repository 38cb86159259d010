import Tensorplate.Sdk.Writers

/-!
# What a task of the caller's does

Each step of a task changes the session and the task's own record, and
nothing else. `Acts` lists these changes with what the step found, so that
an invariant of the senders is checked against the list.
-/

namespace Tensorplate

namespace Sdk

open Lib

variable {w w' : World}

/-- The calls that send an input or end one. -/
def Work.isInput : Work → Bool
  | .sendAudio .. => true
  | .sendText _ => true
  | .finalize => true
  | _ => false

/-- The task gives the gate back and is done. -/
def Session.left (s : Session) (n : ℕ) (returns : Bool) : Session :=
  (if s.inputGate = some n then { s with inputGate := none } else s).note
    (if returns then .returned n else .raised n)

/-- **A step of task `n`**: what it makes of the session and of its record. -/
inductive Acts (n : ℕ) (s : Session) (t : Task) : Session → Task → Prop
  | called {work : Work} : t.stage = .absent → work.isInput = true →
      Acts n s t s { work := work, stage := .gate }
  | closes : t.stage = .absent → s.ready.isSome → Acts n s t s { work := .close, stage := .lock 0 }
  | unready : t.stage = .absent → Acts n s t (s.left n false) { work := .close, stage := .raised }
  | enters : t.stage = .gate → s.inputGate = none →
      (t.work ≠ .finalize → s.checkSending = true) →
      Acts n s t { s with inputGate := some n } { t with stage := .unanswered }
  | shutOut : t.stage = .gate → s.inputGate = none →
      Acts n s t ({ s with inputGate := some n }.left n false) { t with stage := .raised }
  | raises : World.Stage.waits t.stage = true →
      Acts n s t (s.left n false) { t with stage := .raised }
  | admits : t.stage = .unanswered → t.cancelled = false → s.finalizing = none →
      World.refuses s t.work = false →
      Acts n s t s { t with stage := if t.work = .finalize then .lock 0 else .credit }
  | credits : t.stage = .credit → t.cancelled = false →
      Acts n s t s { t with stage := .lock s.samplesSent }
  | writes {offset : ℕ} {s' : Session} : t.stage = .lock offset → t.cancelled = false →
      s.writeLock = none → t.work ≠ .close →
      s.beginWrite (.task n) (World.bodyOf s offset t.work) (World.chargeOf t.work) = some s' →
      Acts n s t (World.sending s' t.work) { t with stage := .writing s'.sent }
  | halfCloses {offset : ℕ} : t.stage = .lock offset → s.writeLock = none → t.work = .close →
      Acts n s t ({ s with
          halfClosed := true, pingerStopped := true, writeLock := some (.task n) }.note
        (.doneWriting (s.call.getD 0))) { t with stage := .doneWriting }
  | awaitsEnd {offset : ℕ} : t.stage = .lock offset → t.work = .close ∨ t.work = .cancel →
      Acts n s t s { t with stage := .untilEnded }
  | wroteAudio {sequence bytes samples : ℕ} : t.stage = .writing sequence →
      t.work = .sendAudio bytes samples →
      Acts n s t ({ s.endWrite with
          samplesSent := s.samplesSent + samples
          shortFrame := World.isShort s samples }.left n true) { t with stage := .returned }
  | wroteFinalize {sequence : ℕ} : t.stage = .writing sequence → t.work = .finalize →
      Acts n s t { s.endWrite with shortFrame := false, synthesisText := 0 }
        { t with stage := .answer sequence }
  | wroteCancel {sequence : ℕ} : t.stage = .writing sequence → t.work = .cancel →
      Acts n s t s.endWrite { t with stage := .untilEnded }
  | wroteText {sequence : ℕ} : t.stage = .writing sequence →
      (∀ bytes samples, t.work ≠ .sendAudio bytes samples) → t.work ≠ .finalize →
      Acts n s t (s.endWrite.left n true) { t with stage := .returned }
  | fails {sequence : ℕ} : t.stage = .writing sequence →
      Acts n s t { s with writeFailed := true } { t with stage := .ending }
  | closed : t.stage = .doneWriting → Acts n s t s.endWrite { t with stage := .untilEnded }
  | endsFailed : t.stage = .ending → s.isOver = true →
      Acts n s t (s.endWrite.left n false) { t with stage := .raised }
  | endsCancel : t.stage = .ending → t.work = .cancel →
      Acts n s t s.endWrite { t with stage := .untilEnded }
  | answered {sequence : ℕ} : t.stage = .answer sequence → s.answer = some sequence →
      Acts n s t (s.left n true) { t with stage := .returned }
  | ended {returns : Bool} : t.stage = .untilEnded →
      Acts n s t (s.left n returns) { t with stage := if returns then .returned else .raised }
  /-- Its caller leaves it, and may abort the session. -/
  | leaves {s' : Session} {b : Bool} : SameSend s s' → (t.cancelled = true → b = true) →
      Acts n s t s' { t with cancelled := b }

/-- The session and one task's record are replaced. -/
def World.put (w : World) (s : Session) (n : ℕ) (t : Task) : World :=
  { w with session := s, tasks := Function.update w.tasks n t }

/-- The step of one task. -/
def ActsOf (n : ℕ) (w w' : World) : Prop :=
  ∃ s t, Acts n w.session (w.tasks n) s t ∧ w' = w.put s n t

theorem leave_put (w : World) (s : Session) (n : ℕ) (returns : Bool) :
    (w.withSession s).leave n returns = w.put (s.left n returns) n
      { w.tasks n with stage := if returns then .returned else .raised } := rfl

theorem stage_put (w : World) (s : Session) (n : ℕ) (stage : Stage) :
    (w.withSession s).stage n stage = w.put s n { w.tasks n with stage := stage } := rfl

theorem put_self (w : World) (n : ℕ) : w.put w.session n (w.tasks n) = w := by
  unfold World.put
  rw [Function.update_eq_self]

theorem acts_entered {n : ℕ} (h : w.entered n = some w') : ActsOf n w w' := by
  unfold World.entered at h
  dsimp only at h
  split_ifs at h with hguard hrefused
  · obtain rfl := Option.some.inj h
    simp only [not_or, not_not, Bool.not_eq_true, Option.isSome_eq_false_iff,
      Option.isNone_iff_eq_none] at hguard
    exact ⟨_, _, .shutOut hguard.1 hguard.2.2, leave_put w _ n false⟩
  · obtain rfl := Option.some.inj h
    simp only [not_or, not_not, Bool.not_eq_true, Option.isSome_eq_false_iff,
      Option.isNone_iff_eq_none] at hguard
    refine ⟨_, _, .enters hguard.1 hguard.2.2 fun hwork => ?_, stage_put w _ n _⟩
    rcases hcheck : w.session.checkSending with - | -
    · have hrefuses : (!w.session.checkSending) = true := by rw [hcheck]; rfl
      exact absurd ⟨hwork, hrefuses⟩ hrefused
    · rfl

theorem acts_answered {n : ℕ} (h : w.answered n = some w') : ActsOf n w w' := by
  unfold World.answered at h
  split at h
  · exact absurd h (by simp)
  rename_i hguard
  rw [not_or, not_not, Bool.not_eq_true] at hguard
  have hwaits : World.Stage.waits (w.tasks n).stage = true := by
    rw [hguard.1]
    rfl
  split at h
  · split at h
    · obtain rfl := Option.some.inj h
      exact ⟨_, _, .raises hwaits, leave_put w w.session n false⟩
    · exact absurd h (by simp)
  rename_i hfinalizing
  split at h
  · obtain rfl := Option.some.inj h
    exact ⟨_, _, .raises hwaits, leave_put w w.session n false⟩
  · rename_i hrefused
    obtain rfl := Option.some.inj h
    exact ⟨_, _, .admits hguard.1 hguard.2 (by simpa using hfinalizing) (by simpa using hrefused),
      stage_put w w.session n _⟩

theorem acts_credited {n : ℕ} (h : w.credited n = some w') : ActsOf n w w' := by
  unfold World.credited at h
  split at h
  · exact absurd h (by simp)
  rename_i hguard
  rw [not_or, not_not, Bool.not_eq_true] at hguard
  split at h
  · obtain rfl := Option.some.inj h
    exact ⟨_, _, .credits hguard.1 hguard.2, stage_put w w.session n _⟩
  split at h
  · obtain rfl := Option.some.inj h
    exact ⟨_, _, .raises (by rw [hguard.1]; rfl), leave_put w w.session n false⟩
  · exact absurd h (by simp)

theorem acts_locked {n : ℕ} (h : w.locked n = some w') : ActsOf n w w' := by
  unfold World.locked at h
  split at h
  swap
  · exact absurd h (by simp)
  rename_i offset hstage
  split at h
  · exact absurd h (by simp)
  rename_i hguard
  simp only [not_or, Bool.not_eq_true, Option.isSome_eq_false_iff,
    Option.isNone_iff_eq_none] at hguard
  split at h
  · rename_i hclose
    split at h
    · obtain rfl := Option.some.inj h
      exact ⟨_, _, .awaitsEnd hstage (.inl hclose), stage_put w w.session n _⟩
    · obtain rfl := Option.some.inj h
      exact ⟨_, _, .halfCloses hstage hguard.2 hclose, stage_put w _ n _⟩
  · rename_i hwork
    split at h
    · rename_i s hbegin
      obtain rfl := Option.some.inj h
      exact ⟨_, _, .writes hstage hguard.1 hguard.2 hwork hbegin, stage_put w _ n _⟩
    · obtain rfl := Option.some.inj h
      split
      · rename_i hcancel
        exact ⟨_, _, .awaitsEnd hstage (.inr hcancel), stage_put w w.session n _⟩
      · exact ⟨_, _, .raises (by rw [hstage]; rfl), leave_put w w.session n false⟩

theorem acts_written {n : ℕ} {ok : Bool} (h : w.written n ok = some w') : ActsOf n w w' := by
  unfold World.written at h
  split at h
  · rename_i sequence hstage
    split at h
    · obtain rfl := Option.some.inj h
      unfold World.afterWrite
      dsimp only
      split
      · rename_i bytes samples hwork
        exact ⟨_, _, .wroteAudio hstage hwork, leave_put w _ n true⟩
      · rename_i hwork
        exact ⟨_, _, .wroteFinalize hstage hwork, stage_put w _ n _⟩
      · rename_i hwork
        exact ⟨_, _, .wroteCancel hstage hwork, stage_put w _ n _⟩
      · rename_i haudio hfinalize hcancel
        exact ⟨_, _, .wroteText hstage haudio hfinalize, leave_put w _ n true⟩
    · obtain rfl := Option.some.inj h
      exact ⟨_, _, .fails hstage, stage_put w _ n _⟩
  · rename_i hstage
    obtain rfl := Option.some.inj h
    exact ⟨_, _, .closed hstage, stage_put w _ n _⟩
  · exact absurd h (by simp)

theorem acts_woken {n : ℕ} (h : w.woken n = some w') : ActsOf n w w' := by
  unfold World.woken at h
  split at h
  · exact absurd h (by simp)
  split at h
  · rename_i hstage
    split at h
    · exact absurd h (by simp)
    · rename_i hover
      obtain rfl := Option.some.inj h
      split
      · rename_i hcancel
        exact ⟨_, _, .endsCancel hstage hcancel, stage_put w _ n _⟩
      · exact ⟨_, _, .endsFailed hstage (by simpa using hover), leave_put w _ n false⟩
  · rename_i sequence hstage
    split at h
    · rename_i hanswer
      obtain rfl := Option.some.inj h
      exact ⟨_, _, .answered hstage hanswer, leave_put w w.session n true⟩
    split at h
    · obtain rfl := Option.some.inj h
      exact ⟨_, _, .raises (by rw [hstage]; rfl), leave_put w w.session n false⟩
    · exact absurd h (by simp)
  · rename_i hstage
    split at h
    · obtain rfl := Option.some.inj h
      exact ⟨_, _, .ended hstage, leave_put w w.session n _⟩
    · exact absurd h (by simp)
  · exact absurd h (by simp)

theorem acts_unwinds {n : ℕ} (h : w.unwinds n = some w') : ActsOf n w w' := by
  unfold World.unwinds at h
  split at h
  · rename_i hguard
    obtain rfl := Option.some.inj h
    exact ⟨_, _, .raises hguard.2, leave_put w w.session n false⟩
  · exact absurd h (by simp)

theorem acts_called {n : ℕ} {work : Work} (hwork : work ≠ .cancel)
    (h : w.called n work = some w') : ActsOf n w w' := by
  unfold World.called at h
  split at h
  · exact absurd h (by simp)
  rename_i hstage
  rw [not_not] at hstage
  split at h
  · exact absurd rfl hwork
  · obtain rfl := Option.some.inj h
    dsimp only
    split
    · refine ⟨_, _, .unready hstage, ?_⟩
      unfold World.leave World.stage World.withSession World.put Session.left
      dsimp only
      rw [Function.update_idem, Function.update_self]
      rfl
    · rename_i hready
      exact ⟨_, _, .closes hstage (by simpa [Option.isSome_iff_ne_none] using hready), rfl⟩
  · rename_i hcancel hclose
    obtain rfl := Option.some.inj h
    refine ⟨_, _, .called hstage ?_, rfl⟩
    rcases work with - | - | - | - | -
    · rfl
    · rfl
    · rfl
    · exact absurd rfl hclose
    · exact absurd rfl hcancel

theorem leaveTask_put (w : World) (n : ℕ) : ∃ b, ((w.tasks n).cancelled = true → b = true) ∧
    w.leaveTask n = w.put w.session n { w.tasks n with cancelled := b } := by
  unfold World.leaveTask
  split
  · exact ⟨true, fun _ => rfl, rfl⟩
  · exact ⟨(w.tasks n).cancelled, id, (put_self w n).symm⟩

/-- A task other than a cancel passes its timeout. -/
theorem acts_timedOut {n : ℕ} (hwork : (w.tasks n).work ≠ .cancel) :
    ActsOf n w ((w.leaveTask n).timedOut n) := by
  obtain ⟨b, hb, heq⟩ := leaveTask_put w n
  have htask : ((w.leaveTask n).tasks n).work = (w.tasks n).work := by
    rw [heq]
    unfold World.put
    dsimp only
    rw [Function.update_self]
  unfold World.timedOut
  split
  · rename_i hcancel _
    exact absurd (htask.symm.trans hcancel) hwork
  · rename_i hcancel _
    exact absurd (htask.symm.trans hcancel) hwork
  · rw [heq]
    split
    · exact ⟨_, _, .leaves (SameSend.abort _ _) hb, rfl⟩
    · exact ⟨_, _, .leaves (SameSend.refl _) hb, rfl⟩

theorem acts_left {n : ℕ} {timeout : Bool} (h : w.left n timeout = some w') : ActsOf n w w' := by
  unfold World.left at h
  split at h
  · exact absurd h (by simp)
  split at h
  · split at h
    · rename_i hwork
      obtain rfl := Option.some.inj h
      unfold World.timedOut
      split
      · rename_i offset hcancel hstage
        exact ⟨_, _, .awaitsEnd hstage (.inr hcancel), stage_put w w.session n _⟩
      · exact ⟨_, _, .leaves (SameSend.refl _) id, (put_self w n).symm⟩
      · rename_i hnot _
        exact absurd hwork hnot
    · rename_i hwork
      obtain rfl := Option.some.inj h
      exact acts_timedOut (by rw [hwork]; exact nofun)
    · rename_i hwork
      obtain rfl := Option.some.inj h
      exact acts_timedOut (by rw [hwork]; exact nofun)
    · exact absurd h (by simp)
  · obtain rfl := Option.some.inj h
    obtain ⟨b, hb, heq⟩ := leaveTask_put w n
    exact ⟨_, _, .leaves (SameSend.refl _) hb, heq⟩

/-- **`cancel`**: the session is marked, or left as it is, and the task waits
to write its Cancel or is done. -/
theorem cancelCalled_cases (w : World) (n : ℕ) :
    (∃ stage, w.cancelCalled n = w.put w.session n { work := .cancel, stage := stage } ∧
        stage.holds = false) ∨
      ∃ s stage, w.session.ended = false ∧
        SameSend { w.session with cancelling := true, log := w.session.log ++ [.cancelled] } s ∧
        w.cancelCalled n = w.put s n { work := .cancel, stage := stage } ∧ stage.holds = false := by
  unfold World.cancelCalled
  dsimp only
  split
  · exact .inl ⟨.returned, rfl, rfl⟩
  rename_i hended
  have hopen : w.session.ended = false := Bool.eq_false_iff.2 hended
  split
  · split
    · exact .inr ⟨_, .returned, hopen, SameSend.settle _ none, rfl, rfl⟩
    · exact .inl ⟨.returned, rfl, rfl⟩
  · have hput : ∀ (s : Session) (stage : Stage), ({ w with
        tasks := Function.update w.tasks n { work := .cancel, stage := .returned } }.withSession
          s).stage n stage = w.put s n { work := .cancel, stage := stage } := by
      intro s stage
      unfold World.stage World.withSession World.put
      dsimp only
      rw [Function.update_idem, Function.update_self]
    have hholds : ∀ b : Bool, (if b then Stage.untilEnded else .lock 0).holds = false := by
      intro b
      split
      · rfl
      · rfl
    refine .inr ⟨_, _, hopen, ?_, hput _ _, hholds _⟩
    split
    · exact SameSend.settle _ none
    · exact SameSend.refl _

end Sdk

end Tensorplate
