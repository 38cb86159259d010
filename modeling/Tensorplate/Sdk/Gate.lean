import Tensorplate.Sdk.Lock

/-!
# The input gate

A call that sends an input, or ends one, holds the gate from its entry to
its end. So one of them is under way at a time.
-/

namespace Tensorplate

namespace Sdk

open Lib

variable {w w' : World}

/-- The task is behind the gate. -/
def Task.inGate (t : Task) : Bool :=
  t.work.isInput && match t.stage with
    | .unanswered => true
    | .credit => true
    | .lock _ => true
    | .writing _ => true
    | .ending => true
    | .answer _ => true
    | _ => false

/-- **Who is behind the gate holds it.** -/
def Gated (w : World) : Prop := ∀ n, (w.tasks n).inGate = true → w.session.inputGate = some n

theorem Gated.same (h : Gated w) (htasks : w'.tasks = w.tasks)
    (hgate : w'.session.inputGate = w.session.inputGate) : Gated w' := by
  intro n hn
  rw [htasks] at hn
  rw [hgate]
  exact h n hn

theorem Gated.goes (h : Gated w) (hg : Goes w w') : Gated w' := by
  rcases hg with hr | ⟨w₁, hr, hc⟩
  · exact h.same hr.tasks hr.session.inputGate
  · exact (h.same hr.tasks hr.session.inputGate).same hc.tasks hc.inputGate

/-- A task moves on, and leaves the gate to those behind it. -/
theorem Gated.put (h : Gated w) {s : Session} {n : ℕ} {t : Task}
    (hgate : ∀ m, m ≠ n → w.session.inputGate = some m → s.inputGate = some m)
    (htask : t.inGate = true → s.inputGate = some n) : Gated (w.put s n t) := by
  intro m hm
  unfold World.put at hm ⊢
  dsimp only at hm ⊢
  by_cases hmn : m = n
  · subst hmn
    rw [Function.update_self] at hm
    exact htask hm
  · rw [Function.update_of_ne hmn] at hm
    exact hgate m hmn (h m hm)

theorem left_inputGate {s : Session} {m n : ℕ} (returns : Bool) (hmn : m ≠ n)
    (hgate : s.inputGate = some m) : (s.left n returns).inputGate = some m := by
  have hnot : s.inputGate ≠ some n := by
    rw [hgate]
    exact fun heq => hmn (Option.some.inj heq)
  unfold Session.left
  rw [if_neg hnot]
  exact hgate

/-- A task that stays behind the gate. -/
theorem inGate_stays {t : Task} {stage : Stage}
    (hold : ∀ work : Work, work.isInput = true → t.work = work → t.inGate = true)
    (hin : Task.inGate { t with stage := stage } = true) : t.inGate = true := by
  unfold Task.inGate at hin
  rw [Bool.and_eq_true] at hin
  exact hold t.work hin.1 rfl

theorem not_inGate {t : Task} {stage : Stage}
    (hstage : ∀ work : Work, Task.inGate { work := work, stage := stage } = false) :
    ¬Task.inGate { t with stage := stage } = true := by
  intro hin
  have hsame : Task.inGate { t with stage := stage } =
      Task.inGate { work := t.work, stage := stage } := rfl
  rw [hsame, hstage] at hin
  exact absurd hin (by simp)

theorem Gated.acts (h : Gated w) {n : ℕ} (hacts : ActsOf n w w') : Gated w' := by
  obtain ⟨s, t, hact, rfl⟩ := hacts
  have hself : ∀ m, m ≠ n → w.session.inputGate = some m → w.session.inputGate = some m :=
    fun _ _ hm => hm
  have hstays : ∀ {stage : Stage}, (∀ work : Work, work.isInput = true → (w.tasks n).work = work →
      (w.tasks n).inGate = true) → Task.inGate { w.tasks n with stage := stage } = true →
      w.session.inputGate = some n := fun hold hin => h n (inGate_stays hold hin)
  have hdone : ∀ {stage : Stage} {s : Session},
      (∀ work : Work, Task.inGate { work := work, stage := stage } = false) →
      Task.inGate { w.tasks n with stage := stage } = true → s.inputGate = some n :=
    fun hstage hin => absurd hin (not_inGate hstage)
  have hback : ∀ {s' : Session} {returns : Bool}, s'.inputGate = w.session.inputGate →
      ∀ m, m ≠ n → w.session.inputGate = some m → (s'.left n returns).inputGate = some m :=
    fun heq m hmn hm => left_inputGate _ hmn (heq.trans hm)
  cases hact with
  | called hstage hwork => exact h.put hself fun hin => absurd hin (by simp [Task.inGate])
  | closes hstage hready => exact h.put hself fun hin => absurd hin (by simp [Task.inGate, Work.isInput])
  | unready hstage => exact h.put (hback rfl) fun hin => absurd hin (by simp [Task.inGate])
  | enters hstage hgate hcheck =>
    refine h.put (fun m _ hm => ?_) fun _ => rfl
    rw [hgate] at hm
    exact absurd hm (by simp)
  | shutOut hstage hgate =>
    refine h.put (fun m _ hm => ?_) (hdone fun _ => Bool.and_false _)
    rw [hgate] at hm
    exact absurd hm (by simp)
  | raises hwaits => exact h.put (hback rfl) (hdone fun _ => Bool.and_false _)
  | admits hstage hcancelled hfinalizing hrefuses =>
    refine h.put hself (hstays fun work hinput hwork => ?_)
    unfold Task.inGate
    rw [hwork, hinput, hstage]
    rfl
  | credits hstage hcancelled =>
    refine h.put hself (hstays fun work hinput hwork => ?_)
    unfold Task.inGate
    rw [hwork, hinput, hstage]
    rfl
  | @writes offset s' hstage hcancelled hlock hwork hbegin =>
    obtain ⟨-, -, unaccepted, lastInput, hs'⟩ := beginWrite_eq hbegin
    obtain ⟨text, heq⟩ := sending_eq s' (w.tasks n).work
    have hgate : (World.sending s' (w.tasks n).work).inputGate = w.session.inputGate := by
      rw [heq, hs']
    refine h.put (fun m _ hm => hgate.trans hm) fun hin => hgate.trans ?_
    refine hstays (fun work hinput hwork => ?_) hin
    unfold Task.inGate
    rw [hwork, hinput, hstage]
    rfl
  | halfCloses hstage hlock hwork => exact h.put hself (hdone fun _ => Bool.and_false _)
  | awaitsEnd hstage hwork => exact h.put hself (hdone fun _ => Bool.and_false _)
  | wroteAudio hstage hwork => exact h.put (hback rfl) (hdone fun _ => Bool.and_false _)
  | wroteFinalize hstage hwork =>
    refine h.put hself (hstays fun work hinput hwork => ?_)
    unfold Task.inGate
    rw [hwork, hinput, hstage]
    rfl
  | wroteCancel hstage hwork => exact h.put hself (hdone fun _ => Bool.and_false _)
  | wroteText hstage haudio hfinalize => exact h.put (hback rfl) (hdone fun _ => Bool.and_false _)
  | fails hstage =>
    refine h.put hself (hstays fun work hinput hwork => ?_)
    unfold Task.inGate
    rw [hwork, hinput, hstage]
    rfl
  | closed hstage => exact h.put hself (hdone fun _ => Bool.and_false _)
  | endsFailed hstage hover => exact h.put (hback rfl) (hdone fun _ => Bool.and_false _)
  | endsCancel hstage hwork => exact h.put hself (hdone fun _ => Bool.and_false _)
  | answered hstage hanswer => exact h.put (hback rfl) (hdone fun _ => Bool.and_false _)
  | @ended returns hstage =>
    refine h.put (hback rfl) (hdone fun work => ?_)
    rcases returns with - | -
    · exact Bool.and_false _
    · exact Bool.and_false _
  | leaves hsame hcancelled =>
    refine h.put (fun m _ hm => hsame.inputGate.trans hm) fun hin => hsame.inputGate.trans (h n ?_)
    exact hin

theorem Gated.cancelCalled (h : Gated w) (n : ℕ) : Gated (w.cancelCalled n) := by
  rcases cancelCalled_cases w n with ⟨stage, heq, -⟩ | ⟨s, stage, -, hs, heq, -⟩
  · rw [heq]
    exact h.put (fun _ _ hm => hm) fun hin => absurd hin (by simp [Task.inGate, Work.isInput])
  · rw [heq]
    exact h.put (fun _ _ hm => hs.inputGate.trans hm) fun hin =>
      absurd hin (by simp [Task.inGate, Work.isInput])

theorem Gated.stirs {a : World.Action} (h : Gated w) (hs : Stirs w a w') : Gated w' := by
  cases hs with
  | goes hg => exact h.goes hg
  | openEnds he => exact h.same he.tasks (by rw [he.session]; rfl)
  | goesOn he hg => exact (h.same he.tasks (by rw [he.session]; rfl)).goes hg
  | answers hanswers =>
    obtain ⟨s, hs, heq⟩ := hanswers.session
    refine h.same hanswers.tasks ?_
    rw [heq]
    exact hs.inputGate
  | pingWrites hp =>
    obtain ⟨s, hbegin, rfl⟩ := hp.writes
    obtain ⟨-, -, unaccepted, lastInput, rfl⟩ := beginWrite_eq hbegin
    exact h.same rfl rfl
  | pingEnds hp =>
    obtain ⟨stage, -, -, rfl⟩ := hp.ends
    exact h.same rfl rfl
  | acts hacts => exact h.acts hacts
  | cancels hstage => exact h.cancelCalled _

/-- **The gate is kept in every run.** -/
theorem gated_run {ok : World → World.Action → Prop} {targets sendsSegments : Bool}
    {sampleRateHz : ℕ} {target : StreamTarget}
    (hrun : Run World.step ok (World.fresh targets sendsSegments sampleRateHz target) w) :
    Gated w ∧ Sound w := by
  refine hrun.invariant (I := fun w => Gated w ∧ Sound w) ⟨?_, sound_fresh ..⟩
    fun _ _ _ h _ hstep => ⟨?_, h.2.step hstep⟩
  · exact fun n hn => absurd hn (by simp [World.fresh, Task.inGate, Work.isInput])
  · exact h.1.stirs (stirs_step h.2.opens h.2.armed h.2.held hstep)

end Sdk

end Tensorplate
