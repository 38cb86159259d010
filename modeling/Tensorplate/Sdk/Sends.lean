import Tensorplate.Sdk.Pace

/-!
# A session writes in order

Every write of a run is in order, one at a time, and a Finalize returns with
the answer to its own sequence.
-/

namespace Tensorplate

namespace Sdk

open Lib

variable {w w' : World}

/-- What holds of the senders in every run. -/
structure Ordered (w : World) : Prop where
  sound : Sound w
  gated : Gated w
  counted : Counted w.session
  paced : Paced w

/-- A session that writes has made a call. -/
theorem Sound.sent_pos (h : Sound w) (hwrites : Writes w.session) (hended : w.session.ended = false) :
    0 < w.session.sent := by
  refine h.held.opened ?_
  by_contra hnot
  have hnone : w.session.call = none := by simpa using hnot
  obtain ⟨-, -, hready, -, -, hover⟩ := h.opens.unopened hnone
  rcases hwrites with hr | hc
  · rw [hready] at hr
    exact absurd hr (by simp)
  · exact absurd (hended.symm.trans (hover (.inl hc))) (by simp)

theorem bodyOf_ne_opening (s : Session) (offset : ℕ) (work : Work) :
    World.bodyOf s offset work ≠ .opening := by
  cases work with
  | _ => exact nofun

theorem isInput_bodyOf {s : Session} {offset : ℕ} {work : Work} :
    (World.bodyOf s offset work).isInput = work.isInput := by
  cases work with
  | _ => rfl

theorem bodyOf_audio {s : Session} {offset o k : ℕ} {work : Work} {short : Bool}
    (h : World.bodyOf s offset work = .audio o k short) :
    (∃ bytes, work = .sendAudio bytes k) ∧ o = offset ∧ short = World.isShort s k := by
  cases work with
  | sendAudio bytes samples =>
    obtain ⟨rfl, rfl, rfl⟩ := ClientBody.audio.inj h
    exact ⟨⟨bytes, rfl⟩, rfl, rfl⟩
  | _ => exact absurd h nofun

theorem bodyOf_segment {s : Session} {offset id : ℕ} {work : Work}
    (h : World.bodyOf s offset work = .textSegment id) : id = s.nextSegment := by
  cases work with
  | sendText bytes => exact (ClientBody.textSegment.inj h).symm
  | _ => exact absurd h nofun

/-- **What a task writes is in order.** -/
theorem Ordered.writes (h : Ordered w) {n offset : ℕ} {s : Session}
    (hstage : (w.tasks n).stage = .lock offset)
    (hw : Wrote w.session s (World.bodyOf w.session offset (w.tasks n).work)) : Counted s := by
  have hwrites : Writes w.session := h.sound.armed.tasks n (by rw [hstage]; rfl)
  have hdue : (w.tasks n).work.isInput = true → (w.tasks n).isDue = true := by
    intro hinput
    unfold Task.isDue
    rw [hinput, hstage]
    rfl
  refine h.counted.wrote hw (bodyOf_ne_opening _ _ _) (h.sound.sent_pos hwrites hw.unended)
    (fun hinput => ?_) (fun hbody => ?_) (fun hbody => bodyOf_segment hbody) fun hbody => ?_
  · rw [isInput_bodyOf] at hinput
    exact (h.paced.tasks n).due (hdue hinput)
  · obtain ⟨⟨bytes, hwork⟩, ho, -⟩ := bodyOf_audio hbody
    have hinput : (w.tasks n).work.isInput = true := by
      rw [hwork]
      rfl
    have haudio : (w.tasks n).work.isAudio = true := by
      rw [hwork]
      rfl
    have hin : (w.tasks n).inGate = true :=
      inGate_of hinput (.inr (.inr (.inr ⟨offset, hstage⟩)))
    have haloft : w.aloft = none := by
      unfold World.aloft
      rw [h.gated n hin, Option.bind_some]
      exact aloft_of_stage (by rw [hstage]; rfl)
    have hsamples := h.paced.samples hw.unended
    rw [haloft] at hsamples
    refine ⟨?_, fun hends => ?_⟩
    · rw [ho, (h.paced.tasks n).offset haudio hstage]
      exact hsamples
    · have hframe := h.paced.short hw.unended hends
      rw [haloft] at hframe
      have hclear := (h.paced.tasks n).short (hdue hinput) haudio
      exact absurd (hclear.symm.trans hframe) (by simp)
  · obtain ⟨⟨bytes, hwork⟩, -, hshort⟩ := bodyOf_audio hbody
    refine ⟨?_, hshort⟩
    have hinput : (w.tasks n).work.isInput = true := by
      rw [hwork]
      rfl
    exact (h.paced.tasks n).ready (hdue hinput)

theorem Ordered.countsActs (h : Ordered w) {n : ℕ} (hacts : ActsOf n w w') :
    Counted w'.session := by
  obtain ⟨s, t, hact, rfl⟩ := hacts
  show Counted s
  have hc := h.counted
  have hleft : ∀ {s' : Session} (returns : Bool), Counted s' → Counted (s'.left n returns) :=
    fun returns hs => hs.hushed (Hushed.left _ n returns)
  have hended : Counted w.session.endWrite := hc.same rfl rfl rfl rfl rfl rfl rfl rfl
  cases hact with
  | writes hstage hcancelled hlock hwork hbegin => exact h.writes hstage (wrote_task hwork hbegin)
  | halfCloses hstage hlock hwork => exact hc.halfCloses
  | enters hstage hgate hcheck =>
    exact hc.same rfl rfl rfl rfl rfl rfl rfl rfl
  | shutOut hstage hgate =>
    exact hleft false (hc.same rfl rfl rfl rfl rfl rfl rfl rfl)
  | fails hstage =>
    exact hc.same rfl rfl rfl rfl rfl rfl rfl rfl
  | wroteAudio hstage hwork =>
    exact hleft true (hc.same rfl rfl rfl rfl rfl rfl rfl rfl)
  | wroteFinalize hstage hwork =>
    exact hc.same rfl rfl rfl rfl rfl rfl rfl rfl
  | unready hstage => exact hleft false hc
  | raises hwaits => exact hleft false hc
  | answered hstage hanswer => exact hleft true hc
  | @ended returns hstage => exact hleft returns hc
  | wroteText hstage haudio hfinalize => exact hleft true hended
  | endsFailed hstage hover => exact hleft false hended
  | wroteCancel hstage hwork => exact hended
  | closed hstage => exact hended
  | endsCancel hstage hwork => exact hended
  | leaves hsame hcancelled => exact hc.hushed hsame.hushed
  | called hstage hwork => exact hc
  | closes hstage hready => exact hc
  | admits hstage hcancelled hfinalizing hrefuses => exact hc
  | credits hstage hcancelled => exact hc
  | awaitsEnd hstage hwork => exact hc

theorem alike_connects (hc : Connects w w') : Alike w.session w'.session := by
  refine ⟨hc.sampleRateHz, fun hf => hc.finalizing.trans hf, hc.samplesSent, hc.shortFrame,
    fun hready => ?_, fun hended => ?_, ?_, ?_⟩
  · rw [hc.unready] at hready
    exact absurd hready (by simp)
  · exact absurd (hc.unended.symm.trans hended) (by simp)
  · rw [hc.log, samplesIn_append]
    rfl
  · rw [hc.log, List.append_cons, endsShort_other rfl rfl, endsShort_other rfl rfl]

theorem counted_goes (hheld : Held w) (hcounted : Counted w.session) (hpaced : Paced w)
    (hg : Goes w w') : Counted w'.session ∧ Paced w' := by
  have hrests : ∀ {v : World}, Rests w v → Counted v.session ∧ Paced v := fun hr =>
    ⟨hcounted.hushed hr.session.hushed,
      hpaced.quiet hr.session.hushed.alike hr.tasks hr.session.inputGate⟩
  rcases hg with hr | ⟨w₁, hr, hc⟩
  · exact hrests hr
  · obtain ⟨hcounted₁, hpaced₁⟩ := hrests hr
    exact ⟨hcounted₁.connects (hheld.goes (.inl hr)) hc,
      hpaced₁.quiet (alike_connects hc) hc.tasks hc.inputGate⟩

theorem Ordered.openEnds (h : Ordered w) (he : OpenEnds w w') :
    Counted w'.session ∧ Paced w' := by
  rw [he.session]
  refine ⟨h.counted.same rfl rfl rfl rfl rfl rfl rfl rfl, ?_⟩
  refine h.paced.quiet ?_ he.tasks ?_
  · rw [he.session]
    exact alike_endWrite _
  · rw [he.session]
    rfl

theorem Ordered.answers (h : Ordered w) {sequence : ℕ} (ha : Answers w w' sequence) : Paced w' := by
  obtain ⟨s, hs, heq⟩ := ha.session
  have halike : Alike s w'.session := by
    rw [heq]
    exact ⟨rfl, fun _ => rfl, rfl, rfl, fun _ => rfl, id, samplesIn_other rfl,
      endsShort_other rfl rfl⟩
  refine h.paced.quiet (hs.hushed.alike.trans halike) ha.tasks ?_
  rw [heq]
  exact hs.inputGate

theorem Ordered.pingWrites (h : Ordered w) (hp : PingWrites w w') :
    Counted w'.session ∧ Paced w' := by
  obtain ⟨s, hbegin, rfl⟩ := hp.writes
  have hw : Wrote w.session s .ping := wrote_beginWrite rfl hbegin
  have hwrites : Writes w.session := by
    refine .inl (h.sound.armed.pinger ?_)
    rw [hp.stage]
    exact nofun
  have hsent := h.sound.sent_pos hwrites hw.unended
  refine ⟨h.counted.wrote hw nofun hsent nofun nofun nofun nofun, ?_⟩
  exact h.paced.quiet (hw.alike nofun nofun) rfl hw.inputGate

theorem Ordered.cancels (h : Ordered w) {n : ℕ} (hstage : (w.tasks n).stage = .absent) :
    Counted (w.cancelCalled n).session ∧ Paced (w.cancelCalled n) := by
  have hnone : (w.tasks n).aloft = none := aloft_of_stage (by rw [hstage]; rfl)
  have haloft : ∀ stage : Stage,
      Task.aloft { work := .cancel, stage := stage } = (w.tasks n).aloft := by
    intro stage
    rw [hnone]
    exact aloft_of_work rfl
  have hput : ∀ {s : Session} {stage : Stage}, Hushed w.session s →
      s.inputGate = w.session.inputGate →
      Paced (w.put s n { work := .cancel, stage := stage }) := fun {s stage} hs hgate =>
    h.paced.put hs.alike (fun _ => aloft_same hgate (haloft stage)) (fits_idle rfl nofun)
  rcases cancelCalled_cases w n with ⟨stage, heq, -⟩ | ⟨s, stage, -, hs, heq, -⟩
  · rw [heq]
    exact ⟨h.counted, hput (Hushed.refl _) rfl⟩
  · have hmarked : Hushed w.session
        { w.session with cancelling := true, log := w.session.log ++ [.cancelled] } := by
      refine ⟨rfl, rfl, rfl, rfl, rfl, rfl, rfl, rfl, fun _ => rfl, id, _, rfl, fun x hx => ?_⟩
      rw [List.mem_singleton.1 hx]
      exact ⟨fun _ => rfl, rfl, rfl, rfl, rfl, fun _ ⟨_, heq⟩ => absurd heq nofun, nofun, nofun,
        fun _ => trivial⟩
    have hhush := hmarked.trans hs.hushed
    rw [heq]
    exact ⟨h.counted.hushed hhush, hput hhush hs.inputGate⟩

/-- **Every step keeps the order.** -/
theorem Ordered.step (h : Ordered w) {a : World.Action} (hstep : w.step a = some w') :
    Ordered w' := by
  have hsound := h.sound
  have hs := stirs_step hsound.opens hsound.armed hsound.held hstep
  have hkeeps : Counted w'.session ∧ Paced w' := by
    cases hs with
    | goes hg => exact counted_goes hsound.held h.counted h.paced hg
    | openEnds he => exact h.openEnds he
    | goesOn he hg =>
      obtain ⟨hcounted, hpaced⟩ := h.openEnds he
      exact counted_goes (hsound.held.openEnds he) hcounted hpaced hg
    | answers ha => exact ⟨h.counted.answers ha, h.answers ha⟩
    | pingWrites hp => exact h.pingWrites hp
    | pingEnds hp =>
      obtain ⟨stage, -, -, rfl⟩ := hp.ends
      exact ⟨h.counted.same rfl rfl rfl rfl rfl rfl rfl rfl,
        h.paced.quiet (alike_endWrite _) rfl rfl⟩
    | acts hacts => exact ⟨h.countsActs hacts, h.paced.acts h.gated hsound hacts⟩
    | cancels hstage => exact h.cancels hstage
  exact ⟨hsound.step hstep, h.gated.stirs hs, hkeeps.1, hkeeps.2⟩

/-! ## Finalize -/

/-- **What a step makes of a `finalize()`**: it has the sequence of the
Finalize it wrote, keeps that while it waits, and returns with its answer. -/
structure FinalizeStep (w w' : World) (n : ℕ) : Prop where
  writes : ∀ {sequence : ℕ}, (w'.tasks n).stage = .writing sequence →
    (w.tasks n).stage = .writing sequence ∨
      ∃ call, w'.session.log = w.session.log ++ [.wrote call sequence .finalize]
  waits : ∀ {sequence : ℕ}, (w'.tasks n).stage = .answer sequence →
    (w.tasks n).stage = .answer sequence ∨ (w.tasks n).stage = .writing sequence
  returns : (w'.tasks n).stage = .returned → (w.tasks n).stage = .returned ∨
    ∃ sequence, (w.tasks n).stage = .answer sequence ∧ w.session.answer = some sequence

/-- The stages a `finalize()` is never at. -/
def Stage.isForeign : Stage → Bool
  | .absent => true
  | .untilEnded => true
  | .doneWriting => true
  | _ => false

/-- A `finalize()` waits for no half close. -/
def Unclosed (w : World) : Prop :=
  ∀ n, (w.tasks n).work = .finalize → (w.tasks n).stage.isForeign = false

theorem Unclosed.put (h : Unclosed w) {s : Session} {n : ℕ} {t : Task}
    (ht : t.work = .finalize → t.stage.isForeign = false) :
    Unclosed (w.put s n t) := by
  intro m
  unfold World.put
  dsimp only
  by_cases hmn : m = n
  · subst hmn
    rw [Function.update_self]
    exact ht
  · rw [Function.update_of_ne hmn]
    exact h m

theorem Unclosed.acts (h : Unclosed w) {n : ℕ} (hacts : ActsOf n w w') : Unclosed w' := by
  obtain ⟨s, t, hact, rfl⟩ := hacts
  have hnot : ∀ {work : Work} {stage : Stage}, (w.tasks n).work = work → work ≠ .finalize →
      (w.tasks n).work = .finalize → stage.isForeign = false :=
    fun hwork hne hfinalize => absurd (hwork.symm.trans hfinalize) hne
  cases hact with
  | halfCloses hstage hlock hwork => exact h.put (hnot hwork nofun)
  | awaitsEnd hstage hwork =>
    rcases hwork with hwork | hwork
    · exact h.put (hnot hwork nofun)
    · exact h.put (hnot hwork nofun)
  | wroteCancel hstage hwork => exact h.put (hnot hwork nofun)
  | closed hstage =>
    refine h.put fun hwork => ?_
    have hbad := h n hwork
    rw [hstage] at hbad
    exact absurd hbad (by simp [Stage.isForeign])
  | endsCancel hstage hwork => exact h.put (hnot hwork nofun)
  | leaves hsame hcancelled => exact h.put (h n)
  | admits hstage hcancelled hfinalizing hrefuses =>
    refine h.put fun _ => ?_
    split
    · rfl
    · rfl
  | @ended returns hstage =>
    refine h.put fun _ => ?_
    split
    · rfl
    · rfl
  | _ => exact h.put fun _ => rfl

/-- What a step may do to the tasks. -/
theorem Stirs.tasks_cases {a : World.Action} (hs : Stirs w a w') :
    w'.tasks = w.tasks ∨ (∃ n, ActsOf n w w') ∨
      ∃ n s stage, (w.tasks n).stage = .absent ∧
        w' = w.put s n { work := .cancel, stage := stage } := by
  have hgoes : ∀ {v v' : World}, Goes v v' → v'.tasks = v.tasks := by
    rintro v v' (hr | ⟨w₁, hr, hc⟩)
    · exact hr.tasks
    · exact hc.tasks.trans hr.tasks
  cases hs with
  | goes hg => exact .inl (hgoes hg)
  | openEnds he => exact .inl he.tasks
  | goesOn he hg => exact .inl ((hgoes hg).trans he.tasks)
  | answers ha => exact .inl ha.tasks
  | pingWrites hp =>
    obtain ⟨s, -, rfl⟩ := hp.writes
    exact .inl rfl
  | pingEnds hp =>
    obtain ⟨stage, -, -, rfl⟩ := hp.ends
    exact .inl rfl
  | acts hacts => exact .inr (.inl ⟨_, hacts⟩)
  | @cancels n hstage =>
    rcases cancelCalled_cases w n with ⟨stage, heq, -⟩ | ⟨s, stage, -, -, heq, -⟩
    · exact .inr (.inr ⟨n, _, stage, hstage, heq⟩)
    · exact .inr (.inr ⟨n, s, stage, hstage, heq⟩)

theorem Unclosed.stirs {a : World.Action} (h : Unclosed w) (hs : Stirs w a w') : Unclosed w' := by
  rcases hs.tasks_cases with htasks | ⟨n, hacts⟩ | ⟨n, s, stage, -, rfl⟩
  · intro n
    rw [htasks]
    exact h n
  · exact h.acts hacts
  · exact h.put nofun

theorem FinalizeStep.same {n : ℕ} (h : (w'.tasks n).stage = (w.tasks n).stage) :
    FinalizeStep w w' n := by
  refine ⟨fun hstage => .inl ?_, fun hstage => .inl ?_, fun hstage => .inl ?_⟩
  · rw [← h]
    exact hstage
  · rw [← h]
    exact hstage
  · rw [← h]
    exact hstage

/-- A task that is neither in its write, nor waits for an answer, nor has
returned. -/
theorem finalizeStep_put {s : Session} {n : ℕ} {t : Task}
    (hwriting : ∀ sequence, t.stage ≠ .writing sequence)
    (hanswer : ∀ sequence, t.stage ≠ .answer sequence) (hreturned : t.stage ≠ .returned) :
    FinalizeStep w (w.put s n t) n := by
  have htask : (w.put s n t).tasks n = t := by
    unfold World.put
    dsimp only
    rw [Function.update_self]
  refine ⟨fun {sequence} hstage => ?_, fun {sequence} hstage => ?_, fun hstage => ?_⟩
  · rw [htask] at hstage
    exact absurd hstage (hwriting sequence)
  · rw [htask] at hstage
    exact absurd hstage (hanswer sequence)
  · rw [htask] at hstage
    exact absurd hstage hreturned

/-- **A step of a `finalize()` itself.** -/
theorem finalizeStep_acts {n : ℕ} (hunclosed : Unclosed w) (hwork : (w.tasks n).work = .finalize)
    (hacts : ActsOf n w w') : FinalizeStep w w' n := by
  obtain ⟨s, t, hact, rfl⟩ := hacts
  have htask : ∀ {t : Task}, (w.put s n t).tasks n = t := by
    intro t
    unfold World.put
    dsimp only
    rw [Function.update_self]
  cases hact with
  | @writes offset s' hstage hcancelled hlock hclose hbegin =>
    have hw := wrote_task hclose hbegin
    obtain ⟨-, -, unaccepted, lastInput, hs'⟩ := beginWrite_eq hbegin
    have hsent : s'.sent = w.session.sent + 1 := by
      rw [hs']
    refine ⟨fun hnew => .inr ?_, fun hnew => ?_, fun hnew => ?_⟩
    · rw [htask] at hnew
      obtain rfl := Stage.writing.inj hnew
      refine ⟨w.session.call.getD 0, ?_⟩
      show (World.sending s' (w.tasks n).work).log = _
      rw [hw.log, hwork, hsent]
      rfl
    · rw [htask] at hnew
      exact absurd hnew (by simp)
    · rw [htask] at hnew
      exact absurd hnew (by simp)
  | @wroteFinalize sequence hstage _ =>
    refine ⟨fun hnew => ?_, fun hnew => .inr ?_, fun hnew => ?_⟩
    · rw [htask] at hnew
      exact absurd hnew (by simp)
    · rw [htask] at hnew
      rw [hstage, Stage.answer.inj hnew]
    · rw [htask] at hnew
      exact absurd hnew (by simp)
  | @answered sequence hstage hanswer =>
    refine ⟨fun hnew => ?_, fun hnew => ?_, fun _ => .inr ⟨sequence, hstage, hanswer⟩⟩
    · rw [htask] at hnew
      exact absurd hnew (by simp)
    · rw [htask] at hnew
      exact absurd hnew (by simp)
  | @wroteAudio sequence bytes samples hstage haudio =>
    exact absurd (hwork.symm.trans haudio) (by simp)
  | wroteText hstage haudio hfinalize => exact absurd hwork hfinalize
  | ended hstage =>
    have hbad := hunclosed n hwork
    rw [hstage] at hbad
    exact absurd hbad (by simp [Stage.isForeign])
  | leaves hsame hcancelled =>
    refine FinalizeStep.same ?_
    rw [htask]
  | admits hstage hcancelled hfinalizing hrefuses =>
    refine finalizeStep_put ?_ ?_ ?_
    · rw [if_pos hwork]
      exact nofun
    · rw [if_pos hwork]
      exact nofun
    · rw [if_pos hwork]
      exact nofun
  | _ => exact finalizeStep_put nofun nofun nofun

theorem finalizeStep_stirs {a : World.Action} {n : ℕ} (hunclosed : Unclosed w)
    (hwork : (w.tasks n).work = .finalize) (hs : Stirs w a w') : FinalizeStep w w' n := by
  have hother : ∀ {m : ℕ} {s : Session} {t : Task}, n ≠ m → FinalizeStep w (w.put s m t) n := by
    intro m s t hnm
    refine FinalizeStep.same ?_
    unfold World.put
    dsimp only
    rw [Function.update_of_ne hnm]
  rcases hs.tasks_cases with htasks | ⟨m, hacts⟩ | ⟨m, s, stage, habsent, rfl⟩
  · refine FinalizeStep.same ?_
    rw [htasks]
  · by_cases hnm : n = m
    · subst hnm
      exact finalizeStep_acts hunclosed hwork hacts
    · obtain ⟨s, t, -, rfl⟩ := hacts
      exact hother hnm
  · by_cases hnm : n = m
    · subst hnm
      have hbad := hunclosed n hwork
      rw [habsent] at hbad
      exact absurd hbad (by simp [Stage.isForeign])
    · exact hother hnm

/-! ## Every run -/

section Runs

variable {targets sendsSegments : Bool} {sampleRateHz : ℕ} {target : StreamTarget}

theorem ordered_fresh : Ordered (World.fresh targets sendsSegments sampleRateHz target) := by
  refine ⟨sound_fresh .., ?_, ?_, ?_⟩
  · exact fun n hn => absurd hn (by simp [World.fresh, Task.inGate, Work.isInput])
  · exact ⟨rfl, fun _ _ => rfl, fun _ hd => absurd hd List.not_mem_nil, rfl,
      fun _ hq => absurd hq not_pending_nil, fun hw => absurd hw List.not_mem_nil, lawful_nil⟩
  · exact ⟨fun _ => rfl, fun _ hends => absurd hends not_pending_nil, fun _ => fits_idle rfl fun _ => rfl⟩

theorem ordered_run
    (hrun : Run World.step Free (World.fresh targets sendsSegments sampleRateHz target) w) :
    Ordered w ∧ Unclosed w := by
  refine hrun.invariant (I := fun w => Ordered w ∧ Unclosed w) ⟨ordered_fresh, nofun⟩
    fun _ _ _ h _ hstep => ⟨h.1.step hstep, ?_⟩
  have hsound := h.1.sound
  exact h.2.stirs (stirs_step hsound.opens hsound.armed hsound.held hstep)

/-- **A session writes in order.** In every run each write is in order and
only one is unfinished; an Audio is marked short exactly if it is shorter
than the least frame; and a `finalize()` returns only with the answer to the
Finalize it wrote. -/
theorem sends_in_order
    (hrun : Run World.step Free (World.fresh targets sendsSegments sampleRateHz target) w) :
    Lawful InOrder w.session.log ∧
      (∀ who who', w.holds who = true → w.holds who' = true → who = who') ∧
      (∀ {call sequence offset samples : ℕ} {short : Bool},
        Happened.wrote call sequence (.audio offset samples short) ∈ w.session.log →
          ∃ limits, w.session.ready = some limits ∧
            (short = true ↔ samples * 1000 < limits.minFrameMs * w.session.sampleRateHz)) ∧
      ∀ {a : World.Action} {w' : World} {n : ℕ}, w.step a = some w' →
        (w.tasks n).work = .finalize → FinalizeStep w w' n := by
  obtain ⟨h, hunclosed⟩ := ordered_run hrun
  have hsound := h.sound
  refine ⟨h.counted.order, fun who who' hwho hwho' => ?_, fun hin => ?_,
    fun hstep hwork => ?_⟩
  · have hlock := (hsound.held.holder who).2 hwho
    have hlock' := (hsound.held.holder who').2 hwho'
    exact Option.some.inj (hlock.symm.trans hlock')
  · obtain ⟨hready, hshort⟩ := h.counted.measured hin
    obtain ⟨limits, hlimits⟩ := Option.isSome_iff_exists.1 hready
    refine ⟨limits, hlimits, ?_⟩
    rw [hshort]
    unfold World.isShort
    rw [hlimits]
    exact decide_eq_true_iff
  · exact finalizeStep_stirs hunclosed hwork
      (stirs_step hsound.opens hsound.armed hsound.held hstep)

/-- Two frames, the second short, then a Finalize and its answer. -/
def shortThenFinalize : List World.Action :=
  [.openCalled, .beginFresh (.error "") true, .openWritten true,
   .read ⟨1, .ready { sessionId := "s", generation := 0, descriptorDigest := ""
                      inputCredit := ⟨0, 64, 0, 0⟩, outputStallTimeoutMs := 1
                      heartbeatIntervalMs := 1, checked := true, minFrameMs := 1
                      maxFrameMs := 1000 }⟩,
   .openAnswered true, .openStep .done,
   .called 0 (.sendAudio 32 16), .entered 0, .answered 0, .credited 0, .locked 0, .written 0 true,
   .called 1 (.sendAudio 4 2), .entered 1, .answered 1, .credited 1, .locked 1, .written 1 true,
   .called 2 .finalize, .entered 2, .answered 2, .locked 2, .written 2 true,
   .read ⟨2, .task true (some 4)⟩]

theorem shortThenFinalize_ends :
    (exec World.step (World.fresh false false 16000 ⟨"", "", 0, ""⟩) shortThenFinalize).bind
      (fun w => (w.step (.woken 2)).map fun w' =>
        (w.session.log, (w.tasks 2).work, (w'.tasks 2).stage, (w.tasks 2).stage)) =
    some ([.connected 1, .wrote 1 1 .opening, .readReady 1, .openReturned,
      .wrote 1 2 (.audio 0 16 false), .returned 0, .wrote 1 3 (.audio 16 2 true), .returned 1,
      .wrote 1 4 .finalize, .readAnswer 4], .finalize, .returned, .answer 4) := by
  decide +kernel

theorem sends_in_order_finalized : ∃ w w' : World,
    Run World.step Free (World.fresh false false 16000 ⟨"", "", 0, ""⟩) w ∧
      Happened.wrote 1 3 (.audio 16 2 true) ∈ w.session.log ∧ Lawful InOrder w.session.log ∧
      w.step (.woken 2) = some w' ∧ (w'.tasks 2).stage = .returned ∧
      w.session.answer = some 4 := by
  obtain ⟨w, hexec, hrest⟩ := Option.bind_eq_some_iff.1 shortThenFinalize_ends
  obtain ⟨w', hstep, hread⟩ := Option.map_eq_some_iff.1 hrest
  simp only [Prod.mk.injEq] at hread
  obtain ⟨hlog, hwork, hstage, hwaits⟩ := hread
  have hrun : Run World.step Free (World.fresh false false 16000 ⟨"", "", 0, ""⟩) w :=
    Run.of_exec hexec
  obtain ⟨horder, -, -, hfinalize⟩ := sends_in_order hrun
  refine ⟨w, w', hrun, ?_, horder, hstep, hstage, ?_⟩
  · rw [hlog]
    decide
  · rcases (hfinalize hstep hwork).returns hstage with hbad | ⟨sequence, hsequence, hanswer⟩
    · exact absurd (hwaits.symm.trans hbad) (by simp)
    · rw [hanswer, Stage.answer.inj (hsequence.symm.trans hwaits)]

end Runs

end Sdk

end Tensorplate
