import Tensorplate.Sdk.Gate

/-!
# What is written after a cancel

A send checks that the session is not cancelled when it takes the gate; a
Finalize checks it once more, after its wait for the answer before it. What
waits behind its check, for an answer, for credit or for the lock, writes
its input as soon as that is there, the session cancelled or not. Where no
send waits so when the session is cancelled, only the Cancel and Pings are
written from then on.
-/

namespace Tensorplate

namespace Sdk

open Lib

variable {w w' : World}

/-- The task sends an input, has passed its last check, and does not write yet. -/
def Task.isSending (t : Task) : Bool :=
  t.work.isInput && match t.stage with
    | .unanswered => t.work ≠ .finalize
    | .credit => true
    | .lock _ => true
    | _ => false

/-- The task sends an input and has not begun its write, or has raised. -/
def Task.isWithheld (t : Task) : Bool :=
  t.work.isInput && match t.stage with
    | .gate => true
    | .unanswered => true
    | .credit => true
    | .lock _ => true
    | .raised => true
    | _ => false

/-- **What may be written**: after a cancel, the Cancel and Pings. -/
def OkWrite (past : List Happened) : Happened → Prop
  | .wrote _ _ body => Happened.cancelled ∈ past → body = .cancel ∨ body = .ping
  | _ => True

/-- No send that waits has passed its check, but those its caller has left. -/
def Clear (w : World) : Prop := ∀ n, (w.tasks n).isSending = true → (w.tasks n).cancelled = true

/-- **The condition**: a session that is open is cancelled where no send that
has passed its check waits. -/
def CancelsClear (w : World) : World.Action → Prop
  | .called _ .cancel => w.session.ready.isSome → w.session.ended = false → Clear w
  | _ => True

/-- What holds in every state of a run under the condition. -/
structure Ceases (w : World) : Prop where
  ready : ∀ n, (w.tasks n).isSending = true → w.session.ready.isSome
  clear : Happened.cancelled ∈ w.session.log → Clear w
  lawful : Lawful OkWrite w.session.log

theorem okWrite_still {x : Happened} (h : x.Still) (past : List Happened) : OkWrite past x := by
  cases x with
  | wrote call sequence body => exact absurd h (by simp [Happened.Still])
  | _ => trivial

theorem SameSend.mem_cancelled {s s' : Session} (h : SameSend s s') :
    Happened.cancelled ∈ s'.log ↔ Happened.cancelled ∈ s.log := by
  obtain ⟨more, hlog, hstill⟩ := h.log
  rw [hlog, List.mem_append]
  constructor
  · rintro (hin | hin)
    · exact hin
    · exact absurd (hstill _ hin) (by simp [Happened.Still])
  · exact Or.inl

theorem SameSend.lawful {s s' : Session} (h : SameSend s s') (hl : Lawful OkWrite s.log) :
    Lawful OkWrite s'.log := by
  obtain ⟨more, hlog, hstill⟩ := h.log
  rw [hlog]
  exact hl.append fun x hx => okWrite_still (hstill x hx)

theorem Ceases.rests (h : Ceases w) (hr : Rests w w') : Ceases w' := by
  refine ⟨fun n hn => ?_, fun hin n hn => ?_, hr.session.lawful h.lawful⟩
  · rw [hr.tasks] at hn
    exact hr.session.readied (h.ready n hn)
  · rw [hr.tasks] at hn ⊢
    exact h.clear (hr.session.mem_cancelled.1 hin) n hn

/-- A cancel is marked. -/
def MarksCancel (w : World) : Prop :=
  Happened.cancelled ∈ w.session.log → w.session.cancelling = true

theorem Ceases.connects (h : Ceases w) (hmarks : MarksCancel w) (hc : Connects w w') :
    Ceases w' := by
  have huncancelled : Happened.cancelled ∉ w.session.log := by
    intro hin
    have hcancelling := hmarks hin
    rw [hc.uncancelled] at hcancelling
    exact absurd hcancelling (by simp)
  have hunready : ∀ n, (w.tasks n).isSending = true → False := by
    intro n hn
    have hready := h.ready n hn
    rw [hc.unready] at hready
    exact absurd hready (by simp)
  refine ⟨fun n hn => ?_, fun _ n hn => ?_, ?_⟩
  · rw [hc.tasks] at hn
    exact (hunready n hn).elim
  · rw [hc.tasks] at hn
    exact (hunready n hn).elim
  · rw [hc.log, List.append_cons, lawful_append_singleton, lawful_append_singleton]
    refine ⟨⟨h.lawful, trivial⟩, fun hin => ?_⟩
    rw [List.mem_append, List.mem_singleton] at hin
    rcases hin with hin | hin
    · exact absurd hin huncancelled
    · exact absurd hin (by simp)

theorem Ceases.goes (h : Ceases w) (hmarks : MarksCancel w) (hg : Goes w w') : Ceases w' := by
  rcases hg with hr | ⟨w₁, hr, hc⟩
  · exact h.rests hr
  · refine (h.rests hr).connects (fun hin => ?_) hc
    exact hr.session.cancelling (hmarks (hr.session.mem_cancelled.1 hin))

/-- The log grows by what is no input, no task changes, and the session is
as ready. -/
theorem Ceases.grows (h : Ceases w) {x : Happened} (hlog : w'.session.log = w.session.log ++ [x])
    (hx : x ≠ .cancelled) (hok : OkWrite w.session.log x) (htasks : w'.tasks = w.tasks)
    (hready : w.session.ready.isSome → w'.session.ready.isSome) : Ceases w' := by
  refine ⟨fun n hn => ?_, fun hin n hn => ?_, ?_⟩
  · rw [htasks] at hn
    exact hready (h.ready n hn)
  · rw [hlog, List.mem_append, List.mem_singleton] at hin
    rw [htasks] at hn ⊢
    rcases hin with hin | hin
    · exact h.clear hin n hn
    · exact absurd hin.symm hx
  · rw [hlog, lawful_append_singleton]
    exact ⟨h.lawful, hok⟩

theorem Ceases.openEnds (h : Ceases w) (he : OpenEnds w w') : Ceases w' := by
  refine ⟨?_, ?_, ?_⟩
  · rw [he.tasks, he.session]
    exact h.ready
  · unfold Clear
    rw [he.tasks, he.session]
    exact h.clear
  · rw [he.session]
    exact h.lawful

theorem Ceases.answers (h : Ceases w) {sequence : ℕ} (ha : Answers w w' sequence) : Ceases w' := by
  obtain ⟨s, hs, heq⟩ := ha.session
  have hrests : Ceases (w.withSession s) := h.rests ⟨hs, rfl, rfl, rfl, id⟩
  refine hrests.grows (x := .readAnswer sequence) ?_ nofun trivial ha.tasks fun hr => ?_
  · rw [heq]
    rfl
  · rw [heq]
    exact hr

theorem Ceases.pingWrites (h : Ceases w) (hp : PingWrites w w') : Ceases w' := by
  obtain ⟨s, hbegin, rfl⟩ := hp.writes
  obtain ⟨-, -, unaccepted, lastInput, rfl⟩ := beginWrite_eq hbegin
  exact h.grows rfl nofun (fun _ => .inr rfl) rfl id

theorem Ceases.pingEnds (h : Ceases w) (hp : PingEnds w w') : Ceases w' := by
  obtain ⟨stage, -, -, rfl⟩ := hp.ends
  exact ⟨h.ready, h.clear, h.lawful⟩

/-- One task moves on. -/
theorem Ceases.put (h : Ceases w) {s : Session} {n : ℕ} {t : Task}
    (hcancelled : Happened.cancelled ∈ s.log → Happened.cancelled ∈ w.session.log)
    (hlawful : Lawful OkWrite s.log) (hready : w.session.ready.isSome → s.ready.isSome)
    (hsending : t.isSending = true → w.session.ready.isSome ∧
      (Happened.cancelled ∈ w.session.log → t.cancelled = true)) : Ceases (w.put s n t) := by
  refine ⟨fun m hm => ?_, fun hin m hm => ?_, hlawful⟩
  · unfold World.put at hm
    dsimp only at hm
    by_cases hmn : m = n
    · subst hmn
      rw [Function.update_self] at hm
      exact hready (hsending hm).1
    · rw [Function.update_of_ne hmn] at hm
      exact hready (h.ready m hm)
  · unfold World.put at hm ⊢
    dsimp only at hm ⊢
    by_cases hmn : m = n
    · subst hmn
      rw [Function.update_self] at hm ⊢
      exact (hsending hm).2 (hcancelled hin)
    · rw [Function.update_of_ne hmn] at hm ⊢
      exact h.clear (hcancelled hin) m hm

/-- Nothing that was sent is said. -/
structure Muted (s s' : Session) : Prop where
  log : ∃ more, s'.log = s.log ++ more ∧ ∀ x ∈ more, x.Still
  ready : s.ready.isSome → s'.ready.isSome

theorem SameSend.muted {s s' : Session} (h : SameSend s s') : Muted s s' := ⟨h.log, h.readied⟩

theorem Muted.left {s s' : Session} (h : Muted s s') (n : ℕ) (returns : Bool) :
    Muted s (s'.left n returns) := by
  obtain ⟨more, hlog, hstill⟩ := h.log
  have hleft : (s'.left n returns).log = s'.log ++ [if returns then .returned n else .raised n] ∧
      (s'.left n returns).ready = s'.ready := by
    unfold Session.left
    split
    · exact ⟨rfl, rfl⟩
    · exact ⟨rfl, rfl⟩
  refine ⟨⟨more ++ [if returns then .returned n else .raised n], ?_, fun x hx => ?_⟩, fun hr => ?_⟩
  · rw [hleft.1, hlog, List.append_assoc]
  · rw [List.mem_append, List.mem_singleton] at hx
    rcases hx with hx | rfl
    · exact hstill x hx
    · split
      · trivial
      · trivial
  · rw [hleft.2]
    exact h.ready hr

theorem Ceases.muted (h : Ceases w) {s : Session} {n : ℕ} {t : Task} (hm : Muted w.session s)
    (hsending : t.isSending = true → w.session.ready.isSome ∧
      (Happened.cancelled ∈ w.session.log → t.cancelled = true)) : Ceases (w.put s n t) := by
  obtain ⟨more, hlog, hstill⟩ := hm.log
  refine h.put (fun hin => ?_) ?_ hm.ready hsending
  · rw [hlog, List.mem_append] at hin
    rcases hin with hin | hin
    · exact hin
    · exact absurd (hstill _ hin) (by simp [Happened.Still])
  · rw [hlog]
    exact h.lawful.append fun x hx => okWrite_still (hstill x hx)

/-- A task that does not send goes on so. -/
theorem Ceases.rest (h : Ceases w) {s : Session} {n : ℕ} {t : Task} (hm : Muted w.session s)
    (hsending : t.isSending = false) : Ceases (w.put s n t) :=
  h.muted hm fun hs => absurd (hsending.symm.trans hs) (by simp)

theorem not_isSending {t : Task} {stage : Stage}
    (hstage : stage ≠ .unanswered ∧ stage ≠ .credit ∧ ∀ offset, stage ≠ .lock offset) :
    Task.isSending { t with stage := stage } = false := by
  obtain ⟨h₁, h₂, h₃⟩ := hstage
  unfold Task.isSending
  cases stage with
  | unanswered => exact absurd rfl h₁
  | credit => exact absurd rfl h₂
  | lock offset => exact absurd rfl (h₃ offset)
  | _ => exact Bool.and_false _

theorem bodyOf_cancel {s : Session} {offset : ℕ} {work : Work} (hinput : work.isInput = false)
    (hclose : work ≠ .close) : World.bodyOf s offset work = .cancel := by
  cases work with
  | close => exact absurd rfl hclose
  | cancel => rfl
  | _ => exact absurd hinput (by simp [Work.isInput])

/-- **A step of a task after a cancel writes nothing but a Cancel.** -/
theorem Ceases.acts (h : Ceases w) (hmarks : MarksCancel w) {n : ℕ} (hacts : ActsOf n w w') :
    Ceases w' := by
  obtain ⟨s, t, hact, rfl⟩ := hacts
  have hself := (SameSend.refl w.session).muted
  have hleft : ∀ {s' : Session} (returns : Bool), s'.log = w.session.log →
      s'.ready = w.session.ready → Muted w.session (s'.left n returns) := by
    intro s' returns hlog hready
    refine Muted.left ⟨⟨[], ?_, nofun⟩, fun hr => ?_⟩ n returns
    · rw [hlog, List.append_nil]
    · rwa [hready]
  have hsame : ∀ {t' : Task}, t'.isSending = true → (w.tasks n).isSending = true →
      (w.tasks n).cancelled = false → w.session.ready.isSome ∧
        (Happened.cancelled ∈ w.session.log → t'.cancelled = true) := by
    intro t' _ hold hleft
    refine ⟨h.ready n hold, fun hin => ?_⟩
    exact absurd (hleft.symm.trans (h.clear hin n hold)) (by simp)
  have hchecked : w.session.checkSending = true → w.session.ready.isSome ∧
      (Happened.cancelled ∈ w.session.log → False) := by
    intro hcheck
    unfold Session.checkSending at hcheck
    simp only [Bool.and_eq_true, Bool.not_eq_true', Bool.or_eq_false_iff] at hcheck
    refine ⟨hcheck.1.1, fun hin => ?_⟩
    exact absurd (hcheck.1.2.2.symm.trans (hmarks hin)) (by simp)
  cases hact with
  | called hstage hwork => exact h.rest hself (Bool.and_false _)
  | closes hstage hready => exact h.rest hself (Bool.false_and _)
  | unready hstage => exact h.rest (hself.left n false) (Bool.false_and _)
  | enters hstage hgate hcheck =>
    refine h.muted ⟨hself.log, id⟩ fun hs => ?_
    have hwork : (w.tasks n).work ≠ .finalize := by
      intro hfinalize
      unfold Task.isSending at hs
      simp [hfinalize] at hs
    obtain ⟨hready, hnever⟩ := hchecked (hcheck hwork)
    exact ⟨hready, fun hin => (hnever hin).elim⟩
  | shutOut hstage hgate =>
    exact h.rest (hleft false rfl rfl) (not_isSending ⟨nofun, nofun, nofun⟩)
  | raises hwaits => exact h.rest (hself.left n false) (not_isSending ⟨nofun, nofun, nofun⟩)
  | admits hstage hcancelled hfinalizing hrefuses =>
    refine h.muted hself fun hs => ?_
    by_cases hfinalize : (w.tasks n).work = .finalize
    · rw [hfinalize] at hrefuses
      obtain ⟨hready, hnever⟩ := hchecked (by simpa [World.refuses] using hrefuses)
      exact ⟨hready, fun hin => (hnever hin).elim⟩
    · refine hsame hs ?_ hcancelled
      unfold Task.isSending at hs ⊢
      rw [Bool.and_eq_true] at hs
      rw [hstage, hs.1]
      simpa using hfinalize
  | credits hstage hcancelled =>
    refine h.muted hself fun hs => hsame hs ?_ hcancelled
    unfold Task.isSending at hs ⊢
    rw [Bool.and_eq_true] at hs
    rw [hstage, hs.1]
    rfl
  | @writes offset s' hstage hcancelled hlock hwork hbegin =>
    obtain ⟨-, -, unaccepted, lastInput, hs'⟩ := beginWrite_eq hbegin
    obtain ⟨text, heq⟩ := sending_eq s' (w.tasks n).work
    rw [heq, hs']
    refine h.put (fun hin => ?_) (lawful_append_singleton.2 ⟨h.lawful, fun hin => ?_⟩) id
      fun hs => absurd hs (by simp [Task.isSending])
    · rcases List.mem_append.1 hin with hin | hin
      · exact hin
      · exact absurd (List.mem_singleton.1 hin) (by simp)
    · -- An input that is written here had passed its check before the cancel.
      rcases hinput : (w.tasks n).work.isInput with - | -
      · exact .inl (bodyOf_cancel hinput hwork)
      · have hold : (w.tasks n).isSending = true := by
          unfold Task.isSending
          rw [hinput, hstage]
          rfl
        exact absurd (hcancelled.symm.trans (h.clear hin n hold)) (by simp)
  | halfCloses hstage hlock hwork =>
    refine h.put (fun hin => ?_) (lawful_append_singleton.2 ⟨h.lawful, trivial⟩) id
      fun hs => absurd hs (by simp [Task.isSending])
    rcases List.mem_append.1 hin with hin | hin
    · exact hin
    · exact absurd (List.mem_singleton.1 hin) (by simp)
  | awaitsEnd hstage hwork => exact h.rest hself (not_isSending ⟨nofun, nofun, nofun⟩)
  | wroteAudio hstage hwork =>
    exact h.rest (hleft true rfl rfl) (not_isSending ⟨nofun, nofun, nofun⟩)
  | wroteFinalize hstage hwork =>
    exact h.rest ⟨hself.log, id⟩ (not_isSending ⟨nofun, nofun, nofun⟩)
  | wroteCancel hstage hwork =>
    exact h.rest ⟨hself.log, id⟩ (not_isSending ⟨nofun, nofun, nofun⟩)
  | wroteText hstage haudio hfinalize =>
    exact h.rest (hleft true rfl rfl) (not_isSending ⟨nofun, nofun, nofun⟩)
  | fails hstage => exact h.rest ⟨hself.log, id⟩ (not_isSending ⟨nofun, nofun, nofun⟩)
  | closed hstage => exact h.rest ⟨hself.log, id⟩ (not_isSending ⟨nofun, nofun, nofun⟩)
  | endsFailed hstage hover =>
    exact h.rest (hleft false rfl rfl) (not_isSending ⟨nofun, nofun, nofun⟩)
  | endsCancel hstage hwork => exact h.rest ⟨hself.log, id⟩ (not_isSending ⟨nofun, nofun, nofun⟩)
  | answered hstage hanswer =>
    exact h.rest (hself.left n true) (not_isSending ⟨nofun, nofun, nofun⟩)
  | @ended returns hstage =>
    refine h.rest (hself.left n returns) ?_
    rcases returns with - | -
    · exact not_isSending ⟨nofun, nofun, nofun⟩
    · exact not_isSending ⟨nofun, nofun, nofun⟩
  | leaves hsend hcancelled =>
    refine h.muted hsend.muted fun hs => ⟨h.ready n hs, fun hin => ?_⟩
    exact hcancelled (h.clear hin n hs)

/-- **`cancel`, where no send waits behind its check.** -/
theorem Ceases.cancelCalled (h : Ceases w) {n : ℕ} (hclear : CancelsClear w (.called n .cancel)) :
    Ceases (w.cancelCalled n) := by
  have hnot : ∀ stage : Stage, Task.isSending { work := .cancel, stage := stage } = false :=
    fun _ => Bool.false_and _
  rcases cancelCalled_cases w n with ⟨stage, heq, -⟩ | ⟨s, stage, hended, hs, heq, -⟩
  · rw [heq]
    exact h.rest (SameSend.refl _).muted (hnot stage)
  · rw [heq]
    obtain ⟨more, hlog, hstill⟩ := hs.log
    have hthen : Clear w := by
      intro m hm
      exact hclear (h.ready m hm) hended m hm
    refine ⟨fun m hm => ?_, fun _ m hm => ?_, ?_⟩
    · unfold World.put at hm
      dsimp only at hm
      by_cases hmn : m = n
      · subst hmn
        rw [Function.update_self, hnot] at hm
        exact absurd hm (by simp)
      · rw [Function.update_of_ne hmn] at hm
        exact hs.readied (h.ready m hm)
    · unfold World.put at hm ⊢
      dsimp only at hm ⊢
      by_cases hmn : m = n
      · subst hmn
        rw [Function.update_self, hnot] at hm
        exact absurd hm (by simp)
      · rw [Function.update_of_ne hmn] at hm ⊢
        exact hthen m hm
    · exact hs.lawful (lawful_append_singleton.2 ⟨h.lawful, trivial⟩)

theorem Ceases.step {a : World.Action} (h : Ceases w) (hsound : Sound w) (hclear : CancelsClear w a)
    (hstep : w.step a = some w') : Ceases w' := by
  have hmarks : MarksCancel w := fun hin => hsound.opens.cancelled (.inl hin)
  cases stirs_step hsound.opens hsound.armed hsound.held hstep with
  | goes hg => exact h.goes hmarks hg
  | openEnds he => exact h.openEnds he
  | goesOn he hg =>
    refine (h.openEnds he).goes ?_ hg
    unfold MarksCancel
    rw [he.session]
    exact hmarks
  | answers hanswers => exact h.answers hanswers
  | pingWrites hp => exact h.pingWrites hp
  | pingEnds hp => exact h.pingEnds hp
  | acts hacts => exact h.acts hmarks hacts
  | cancels _ => exact h.cancelCalled hclear

/-! ## The sends that wait -/

/-- A send that is withheld after a cancel stays so, or raises. -/
theorem withheld_acts (h : Ceases w) (hin : Happened.cancelled ∈ w.session.log) {n : ℕ}
    (hacts : ActsOf n w w') (hheld : (w.tasks n).isWithheld = true) :
    (w'.tasks n).isWithheld = true := by
  obtain ⟨s, t, hact, rfl⟩ := hacts
  have hinput : (w.tasks n).work.isInput = true := by
    unfold Task.isWithheld at hheld
    rw [Bool.and_eq_true] at hheld
    exact hheld.1
  have hstays : ∀ {stage : Stage} {b : Bool}, (match stage with
      | .gate => true
      | .unanswered => true
      | .credit => true
      | .lock _ => true
      | .raised => true
      | _ => false) = true →
      Task.isWithheld { work := (w.tasks n).work, stage := stage, cancelled := b } = true := by
    intro stage b hstage
    unfold Task.isWithheld
    rw [hinput]
    exact hstage
  have hnever : ∀ {stage : Stage}, (w.tasks n).stage = stage →
      Task.isWithheld { w.tasks n with stage := stage } = true := by
    rintro stage rfl
    exact hheld
  unfold World.put
  dsimp only
  rw [Function.update_self]
  cases hact with
  | called hstage hwork => exact absurd (hnever hstage) (by simp [Task.isWithheld])
  | closes hstage hready => exact absurd (hnever hstage) (by simp [Task.isWithheld])
  | unready hstage => exact absurd (hnever hstage) (by simp [Task.isWithheld])
  | enters hstage hgate hcheck => exact hstays rfl
  | shutOut hstage hgate => exact hstays rfl
  | raises hwaits => exact hstays rfl
  | admits hstage hcancelled hfinalizing hrefuses =>
    split
    · exact hstays rfl
    · exact hstays rfl
  | credits hstage hcancelled => exact hstays rfl
  | writes hstage hcancelled hlock hwork hbegin =>
    have hsending : (w.tasks n).isSending = true := by
      unfold Task.isSending
      rw [hinput, hstage]
      rfl
    exact absurd (hcancelled.symm.trans (h.clear hin n hsending)) (by simp)
  | halfCloses hstage hlock hwork =>
    rw [hwork] at hinput
    exact absurd hinput (by simp [Work.isInput])
  | awaitsEnd hstage hwork =>
    rcases hwork with hwork | hwork
    · rw [hwork] at hinput
      exact absurd hinput (by simp [Work.isInput])
    · rw [hwork] at hinput
      exact absurd hinput (by simp [Work.isInput])
  | wroteAudio hstage hwork => exact absurd (hnever hstage) (by simp [Task.isWithheld])
  | wroteFinalize hstage hwork => exact absurd (hnever hstage) (by simp [Task.isWithheld])
  | wroteCancel hstage hwork => exact absurd (hnever hstage) (by simp [Task.isWithheld])
  | wroteText hstage haudio hfinalize => exact absurd (hnever hstage) (by simp [Task.isWithheld])
  | fails hstage => exact absurd (hnever hstage) (by simp [Task.isWithheld])
  | closed hstage => exact absurd (hnever hstage) (by simp [Task.isWithheld])
  | endsFailed hstage hover => exact absurd (hnever hstage) (by simp [Task.isWithheld])
  | endsCancel hstage hwork => exact absurd (hnever hstage) (by simp [Task.isWithheld])
  | answered hstage hanswer => exact absurd (hnever hstage) (by simp [Task.isWithheld])
  | ended hstage => exact absurd (hnever hstage) (by simp [Task.isWithheld])
  | leaves hsend hcancelled => exact hheld

theorem put_tasks_of_ne (w : World) (s : Session) {n m : ℕ} (t : Task) (h : m ≠ n) :
    (w.put s n t).tasks m = w.tasks m :=
  Function.update_of_ne h _ _

theorem goes_tasks (h : Goes w w') : w'.tasks = w.tasks := by
  rcases h with hr | ⟨w₁, hr, hc⟩
  · exact hr.tasks
  · exact hc.tasks.trans hr.tasks

theorem withheld_step {a : World.Action} (h : Ceases w) (hsound : Sound w)
    (hin : Happened.cancelled ∈ w.session.log) (hstep : w.step a = some w') {n : ℕ}
    (hheld : (w.tasks n).isWithheld = true) : (w'.tasks n).isWithheld = true := by
  cases stirs_step hsound.opens hsound.armed hsound.held hstep with
  | goes hg => rwa [goes_tasks hg]
  | openEnds he => rwa [he.tasks]
  | goesOn he hg => rwa [goes_tasks hg, he.tasks]
  | answers hanswers => rwa [hanswers.tasks]
  | pingWrites hp =>
    obtain ⟨s, -, rfl⟩ := hp.writes
    exact hheld
  | pingEnds hp =>
    obtain ⟨stage, -, -, rfl⟩ := hp.ends
    exact hheld
  | @acts _ _ m hacts =>
    by_cases hmn : n = m
    · subst hmn
      exact withheld_acts h hin hacts hheld
    · obtain ⟨s, t, -, rfl⟩ := hacts
      rwa [put_tasks_of_ne w s t hmn]
  | @cancels m hstage =>
    have hmn : n ≠ m := by
      rintro rfl
      unfold Task.isWithheld at hheld
      rw [hstage, Bool.and_false] at hheld
      exact absurd hheld (by simp)
    rcases cancelCalled_cases w m with ⟨stage, heq, -⟩ | ⟨s, stage, -, -, heq, -⟩
    · rwa [heq, put_tasks_of_ne w _ _ hmn]
    · rwa [heq, put_tasks_of_ne w _ _ hmn]

section Runs

variable {targets sendsSegments : Bool} {sampleRateHz : ℕ} {target : StreamTarget}

theorem ceases_run
    (hrun : Run World.step CancelsClear (World.fresh targets sendsSegments sampleRateHz target) w) :
    Ceases w ∧ Sound w := by
  refine hrun.invariant (I := fun w => Ceases w ∧ Sound w) ⟨⟨?_, ?_, lawful_nil⟩, sound_fresh ..⟩
    fun _ _ _ h hclear hstep => ⟨h.1.step h.2 hclear hstep, h.2.step hstep⟩
  · exact fun n hn => absurd hn (by simp [World.fresh, Task.isSending, Work.isInput])
  · exact fun hin => absurd hin (by simp [World.fresh])

/-- **After a cancel only the Cancel and Pings are written**, in every run
whose cancels find no send waiting behind its check; a send that has not
begun its write by then has raised, or still waits, ever after. -/
theorem cancel_ceases
    (hrun : Run World.step CancelsClear (World.fresh targets sendsSegments sampleRateHz target) w)
    (hlater : Run World.step CancelsClear w w') :
    Lawful OkWrite w.session.log ∧ (Happened.cancelled ∈ w.session.log →
      ∀ n, (w.tasks n).isWithheld = true → (w'.tasks n).isWithheld = true) := by
  obtain ⟨h, hsound⟩ := ceases_run hrun
  refine ⟨h.lawful, fun hin n hheld => ?_⟩
  have hall := hlater.invariant (I := fun v => (Ceases v ∧ Sound v) ∧
    Happened.cancelled ∈ v.session.log ∧ (v.tasks n).isWithheld = true)
    ⟨⟨h, hsound⟩, hin, hheld⟩ fun v a v' hv hclear hstep => ?_
  · exact hall.2.2
  · obtain ⟨⟨hceases, hv⟩, hcancelled, hwithheld⟩ := hv
    obtain ⟨more, hlog⟩ := (stirs_step hv.opens hv.armed hv.held hstep).log
    refine ⟨⟨hceases.step hv hclear hstep, hv.step hstep⟩, ?_,
      withheld_step hceases hv hcancelled hstep hwithheld⟩
    rw [hlog]
    exact List.mem_append_left _ hcancelled

/-- A second frame waits for credit when the session is cancelled, and the
credit comes then. -/
def lateAudio : List World.Action :=
  [.openCalled, .beginFresh (.error "") true, .openWritten true,
   .read ⟨1, .ready { sessionId := "s", generation := 0, descriptorDigest := ""
                      inputCredit := ⟨0, 4, 0, 0⟩, outputStallTimeoutMs := 1
                      heartbeatIntervalMs := 1, checked := true, maxFrameMs := 1000 }⟩,
   .openAnswered true, .openStep .done,
   .called 0 (.sendAudio 4 2), .entered 0, .answered 0, .credited 0, .locked 0, .written 0 true,
   .called 1 (.sendAudio 4 2), .entered 1, .answered 1,
   .called 2 .cancel, .locked 2, .written 2 true,
   .read ⟨2, .accepted 2 ⟨0, 4, 0, 0⟩⟩, .credited 1, .locked 1]

theorem lateAudio_ends :
    (exec World.step (World.fresh false false 16000 ⟨"", "", 0, ""⟩) lateAudio).map
      (fun w => w.session.log) =
    some [.connected 1, .wrote 1 1 .opening, .readReady 1, .openReturned,
      .wrote 1 2 (.audio 0 2 false), .returned 0, .cancelled, .wrote 1 3 .cancel,
      .wrote 1 4 (.audio 2 2 false)] := by
  decide +kernel

/-- An Audio is written after the Cancel. -/
theorem audio_after_cancel : ∃ w : World,
    Run World.step Free (World.fresh false false 16000 ⟨"", "", 0, ""⟩) w ∧
      Happened.readReady 1 ∈ w.session.log ∧ ¬Lawful OkWrite w.session.log := by
  obtain ⟨w, hexec, hlog⟩ := Option.map_eq_some_iff.1 lateAudio_ends
  refine ⟨w, Run.of_exec hexec, ?_, fun hlawful => ?_⟩
  · rw [hlog]
    decide
  · have hok := hlawful [.connected 1, .wrote 1 1 .opening, .readReady 1, .openReturned,
      .wrote 1 2 (.audio 0 2 false), .returned 0, .cancelled, .wrote 1 3 .cancel]
      (.wrote 1 4 (.audio 2 2 false)) [] hlog
    rcases hok (by decide) with hbody | hbody
    · exact absurd hbody (by simp)
    · exact absurd hbody (by simp)

/-- No send waits behind its check where the gate is free. -/
theorem Gated.clear (h : Gated w) (hgate : w.session.inputGate = none) : Clear w := by
  intro n hn
  have hin : (w.tasks n).inGate = true := by
    unfold Task.isSending at hn
    unfold Task.inGate
    rw [Bool.and_eq_true] at hn ⊢
    refine ⟨hn.1, ?_⟩
    have hstage := hn.2
    split at hstage
    · rename_i heq
      rw [heq]
    · rename_i heq
      rw [heq]
    · rename_i heq
      rw [heq]
    · exact absurd hstage Bool.false_ne_true
  exact absurd (hgate.symm.trans (h n hin)) (by simp)

/-- The actions that cancel nothing. -/
def isQuiet : World.Action → Bool
  | .called _ .cancel => false
  | _ => true

theorem cancelsClear_of_isQuiet (v : World) (a : World.Action) (h : isQuiet a = true) :
    CancelsClear v a := by
  unfold CancelsClear
  split
  · exact absurd h Bool.false_ne_true
  · trivial

/-- A session that is open, with a send still at the gate. -/
def openWithSend : List World.Action :=
  [.openCalled, .beginFresh (.error "") true, .openWritten true,
   .read ⟨1, .ready { sessionId := "s", generation := 0, descriptorDigest := ""
                      inputCredit := ⟨0, 4, 0, 0⟩, outputStallTimeoutMs := 1
                      heartbeatIntervalMs := 1, checked := true, maxFrameMs := 1000 }⟩,
   .openAnswered true, .openStep .done, .called 1 (.sendAudio 4 2)]

theorem openWithSend_ends :
    (exec (fun s a => if isQuiet a then World.step s a else none)
      (World.fresh false false 16000 ⟨"", "", 0, ""⟩) openWithSend).bind
      (fun w => (exec World.step w [.called 2 .cancel]).bind fun w' =>
        (exec World.step w' [.locked 2]).map fun w'' =>
          (w.session.inputGate, w'.session.log, (w'.tasks 1).isWithheld, w''.session.log)) =
    some (none, [.connected 1, .wrote 1 1 .opening, .readReady 1, .openReturned, .cancelled], true,
      [.connected 1, .wrote 1 1 .opening, .readReady 1, .openReturned, .cancelled,
        .wrote 1 2 .cancel]) := by
  decide +kernel

theorem run_one {ok : World → World.Action → Prop} {a : World.Action} (hok : ok w a)
    (h : exec World.step w [a] = some w') : Run World.step ok w w' := by
  rw [exec, Option.bind_eq_some_iff] at h
  obtain ⟨u, hu, hrest⟩ := h
  obtain rfl : u = w' := Option.some.inj hrest
  exact Run.tail Run.refl hok hu

/-- The send that waits at the gate is held back, and the Cancel is written. -/
theorem cancel_ceases_early : ∃ w w' : World,
    Run World.step CancelsClear (World.fresh false false 16000 ⟨"", "", 0, ""⟩) w ∧
      Run World.step CancelsClear w w' ∧ Happened.cancelled ∈ w.session.log ∧
      Happened.wrote 1 2 .cancel ∈ w'.session.log ∧ Lawful OkWrite w'.session.log ∧
      (w'.tasks 1).isWithheld = true := by
  obtain ⟨w₀, hopen, hrest⟩ := Option.bind_eq_some_iff.1 openWithSend_ends
  obtain ⟨w₁, hcancel, hrest⟩ := Option.bind_eq_some_iff.1 hrest
  obtain ⟨w₂, hlock, hread⟩ := Option.map_eq_some_iff.1 hrest
  simp only [Prod.mk.injEq] at hread
  obtain ⟨hgate, hlog₁, hheld, hlog₂⟩ := hread
  have hrun₀ : Run World.step CancelsClear (World.fresh false false 16000 ⟨"", "", 0, ""⟩) w₀ :=
    Run.of_checked cancelsClear_of_isQuiet hopen
  have hclear : CancelsClear w₀ (.called 2 .cancel) :=
    fun _ _ => (gated_run hrun₀).1.clear hgate
  have hrun₁ := hrun₀.trans (run_one hclear hcancel)
  have hrun₂ : Run World.step CancelsClear w₁ w₂ :=
    run_one (cancelsClear_of_isQuiet w₁ (.locked 2) rfl) hlock
  have hin : Happened.cancelled ∈ w₁.session.log := by
    rw [hlog₁]
    decide
  refine ⟨w₁, w₂, hrun₁, hrun₂, hin, ?_, ?_, ?_⟩
  · rw [hlog₂]
    decide
  · exact (cancel_ceases (hrun₁.trans hrun₂) Run.refl).1
  · exact (cancel_ceases hrun₁ hrun₂).2 hin 1 hheld

end Runs

end Sdk

end Tensorplate
