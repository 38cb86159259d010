import Tensorplate.Lib.History
import Tensorplate.Sdk.Model.Tasks

/-!
# The open of a session

An open makes one call, or two. Between the two the session is neither open
nor ended: the failure of the first call is kept aside, and whatever ends
the session then takes it away. The invariant says when it may be there,
which steps of `_begin` can still make a call, and what the session's end
was where a settled session is settled again.
-/

namespace Tensorplate

namespace Sdk

open Lib

/-- The numbers of the calls that were made. -/
def callsIn (log : List Happened) : List ℕ :=
  log.filterMap fun
    | .connected n => some n
    | _ => none

theorem callsIn_append (a b : List Happened) : callsIn (a ++ b) = callsIn a ++ callsIn b :=
  List.filterMap_append

theorem mem_callsIn {log : List Happened} {n : ℕ} :
    n ∈ callsIn log ↔ Happened.connected n ∈ log := by
  unfold callsIn
  rw [List.mem_filterMap]
  constructor
  · rintro ⟨x, hx, hn⟩
    split at hn
    · obtain rfl := Option.some.inj hn
      exact hx
    · exact absurd hn (by simp)
  · intro h
    exact ⟨_, h, rfl⟩

/-- What the first call's end must have been for a second: it ended before
any server event, unavailable, or with an internal error after its Open
failed to be written, or otherwise not well and the agent named another
target then. -/
def AllowsSecond (past : List Happened) : Prop :=
  ∃ status before after, past = before ++ .concluded 1 status 0 :: after ∧ status ≠ .ok ∧
    (status = .unavailable ∨
      (status = .internal ∧ Happened.openWriteFailed 1 ∈ before) ∨
      ∃ seen found, Happened.named seen found ∈ after ∧ found ≠ seen)

/-- **When a call may be made**: not after a cancel, an abort or a shutdown,
and a second time only where the first call's end allows it. -/
def OkCall (past : List Happened) : Happened → Prop
  | .connected _ => Happened.cancelled ∉ past ∧ Happened.aborted ∉ past ∧ Happened.shut ∉ past ∧
      (callsIn past = [] ∨ (callsIn past = [1] ∧ AllowsSecond past))
  | _ => True

/-- An entry that no invariant of the open reads. -/
def Happened.Quiet : Happened → Prop
  | .wrote .. => True
  | .doneWriting _ => True
  | .readAnswer _ => True
  | .returned _ => True
  | .raised _ => True
  | .openReturned => True
  | .openRaised => True
  | _ => False

/-- Why the first call is kept aside. -/
def LostFor (s : Session) : Prop :=
  ∃ status before after, s.log = before ++ .concluded 1 status 0 :: after ∧ status ≠ .ok ∧
    (s.lostRetryable = true → status = .unavailable ∨
      (status = .internal ∧ Happened.openWriteFailed 1 ∈ before)) ∧
    (s.targets = false → s.lostRetryable = true)

theorem LostFor.grow {s s' : Session} {more : List Happened} (h : LostFor s)
    (hlog : s'.log = s.log ++ more) (hretryable : s'.lostRetryable = s.lostRetryable)
    (htargets : s'.targets = s.targets) : LostFor s' := by
  obtain ⟨status, before, after, hpast, hrest⟩ := h
  refine ⟨status, before, after ++ more, ?_, ?_⟩
  · rw [hlog, hpast, List.append_assoc, List.cons_append]
  · rwa [hretryable, htargets]

/-- The session was cancelled or shut, and ended without a failure. -/
def Abandoned (s : Session) : Prop := s.ended = true ∧ s.cancelling = true ∧ s.failure = none

/-- **What holds of a session in every step of its open and after it.** -/
structure Opens (w : World) : Prop where
  calls : callsIn w.session.log = List.range' 1 (w.session.call.getD 0)
  number : ∀ n, w.session.call = some n → n = if w.session.reopened then 2 else 1
  unopened : w.session.call = none → w.session.reopened = false ∧ w.reader = .absent ∧
    w.session.ready = none ∧ w.session.lost = none ∧
    (w.begins = .absent ∨ w.begins = .fresh ∨ w.begins = .raised) ∧
    (w.session.cancelling = true ∨ w.session.abortError.isSome → w.session.ended = true)
  reading : w.reader = .reading ∨ w.reader = .concluding →
    w.session.ended = false ∧ w.session.lost = none ∧ w.session.call.isSome
  lost : w.session.lost.isSome → w.session.ended = false ∧ w.session.cancelling = false ∧
    w.session.abortError = none ∧ w.session.opening = true ∧ w.session.reopened = false ∧
    w.session.call = some 1 ∧ w.reader = .done ∧ w.session.ready = none ∧ LostFor w.session
  opening : w.session.opening = true ↔ w.opener = .waiting ∨ w.opener = .aborting
  fresh : w.begins = .fresh → w.session.call = none ∧
    (w.beginCancelled = false → w.session.ended = true → Abandoned w.session)
  follow : w.begins = .follow → w.session.call = some 1 ∧ w.reader = .done ∧
    (w.beginCancelled = false → w.session.lost.isSome ∨ Abandoned w.session)
  waiting : (w.opener = .waiting ∨ w.opener = .absent → w.beginCancelled = false) ∧
    (w.opener = .waiting → w.begins ≠ .absent)
  returned : w.begins = .returned ∨ w.opener = .returned → w.session.ready.isSome
  ready : w.session.ready.isSome → 0 < w.session.received ∧
    Happened.readReady (w.session.call.getD 0) ∈ w.session.log
  writeFailed : w.session.writeFailed = true → w.session.cancelling = true ∨
    w.session.ready.isSome ∨
    ∃ n, w.session.call = some n ∧ Happened.openWriteFailed n ∈ w.session.log
  cancelled : Happened.cancelled ∈ w.session.log ∨ Happened.shut ∈ w.session.log →
    w.session.cancelling = true
  aborted : Happened.aborted ∈ w.session.log → w.session.abortError.isSome
  lawful : Lawful OkCall w.session.log
  exited : w.opener = .returned ∨ w.opener = .raised → w.session.call.isSome ∨ w.session.ended = true
  unfailed : w.session.ended = false → w.session.failure = none
  aborting : w.opener = .aborting → w.session.abortError.isSome

/-- The open does not see the difference between two sessions. -/
structure SameSession (s s' : Session) : Prop where
  targets : s'.targets = s.targets
  target : s'.target = s.target
  call : s'.call = s.call
  received : s'.received = s.received
  ready : s'.ready = s.ready
  ended : s'.ended = s.ended
  failure : s'.failure = s.failure
  abortError : s'.abortError = s.abortError
  cancelling : s'.cancelling = s.cancelling
  writeFailed : s'.writeFailed = s.writeFailed
  opening : s'.opening = s.opening
  reopened : s'.reopened = s.reopened
  lost : s'.lost = s.lost
  lostRetryable : s'.lostRetryable = s.lostRetryable
  log : ∃ more, s'.log = s.log ++ more ∧ ∀ x ∈ more, x.Quiet

/-- Nor that between two worlds. -/
structure SameOpen (w w' : World) : Prop extends SameSession w.session w'.session where
  opener : w'.opener = w.opener
  begins : w'.begins = w.begins
  beginCancelled : w'.beginCancelled = w.beginCancelled
  reader : w'.reader = w.reader

variable {w w' : World}

theorem callsIn_quiet {more : List Happened} (h : ∀ x ∈ more, x.Quiet) : callsIn more = [] := by
  unfold callsIn
  refine List.filterMap_eq_nil_iff.2 fun x hx => ?_
  have hquiet := h x hx
  cases x with
  | connected n => exact absurd hquiet (by simp [Happened.Quiet])
  | _ => rfl

theorem SameOpen.callsIn (h : SameOpen w w') :
    callsIn w'.session.log = Sdk.callsIn w.session.log := by
  obtain ⟨more, hlog, hquiet⟩ := h.log
  rw [hlog, callsIn_append, callsIn_quiet hquiet, List.append_nil]

theorem SameOpen.mem (h : SameOpen w w') {x : Happened} (hx : ¬x.Quiet) :
    x ∈ w'.session.log ↔ x ∈ w.session.log := by
  obtain ⟨more, hlog, hquiet⟩ := h.log
  rw [hlog, List.mem_append]
  constructor
  · rintro (hin | hin)
    · exact hin
    · exact absurd (hquiet x hin) hx
  · exact Or.inl

theorem SameOpen.lawful (h : SameOpen w w') (hlawful : Lawful OkCall w.session.log) :
    Lawful OkCall w'.session.log := by
  obtain ⟨more, hlog, hquiet⟩ := h.log
  rw [hlog]
  refine hlawful.append fun x hx past => ?_
  have hq := hquiet x hx
  cases x with
  | connected n => exact absurd hq (by simp [Happened.Quiet])
  | _ => trivial

/-- **A step the open does not see keeps the invariant.** -/
theorem Opens.same (h : Opens w) (hs : SameOpen w w') : Opens w' := by
  have hlostFor : LostFor w.session → LostFor w'.session := by
    intro hfor
    obtain ⟨more, hlog, -⟩ := hs.log
    exact hfor.grow hlog hs.lostRetryable hs.targets
  have habandoned : Abandoned w'.session ↔ Abandoned w.session := by
    unfold Abandoned
    rw [hs.ended, hs.cancelling, hs.failure]
  have hmem := fun {x} => hs.mem (x := x)
  constructor
  · rw [hs.callsIn, hs.call]
    exact h.calls
  · rw [hs.call, hs.reopened]
    exact h.number
  · rw [hs.call, hs.reopened, hs.reader, hs.ready, hs.lost, hs.begins, hs.cancelling, hs.abortError,
      hs.ended]
    exact h.unopened
  · rw [hs.reader, hs.ended, hs.lost, hs.call]
    exact h.reading
  · rw [hs.lost, hs.ended, hs.cancelling, hs.abortError, hs.opening, hs.reopened, hs.call, hs.reader,
      hs.ready]
    intro hsome
    obtain ⟨h₁, h₂, h₃, h₄, h₅, h₆, h₇, h₈, h₉⟩ := h.lost hsome
    exact ⟨h₁, h₂, h₃, h₄, h₅, h₆, h₇, h₈, hlostFor h₉⟩
  · rw [hs.opening, hs.opener]
    exact h.opening
  · rw [hs.begins, hs.call, hs.beginCancelled, hs.ended, habandoned]
    exact h.fresh
  · rw [hs.begins, hs.call, hs.reader, hs.beginCancelled, hs.lost, habandoned]
    exact h.follow
  · rw [hs.opener, hs.beginCancelled, hs.begins]
    exact h.waiting
  · rw [hs.begins, hs.opener, hs.ready]
    exact h.returned
  · rw [hs.ready, hs.received, hs.call, hmem id]
    exact h.ready
  · rw [hs.writeFailed, hs.cancelling, hs.ready, hs.call]
    intro hfailed
    rcases h.writeFailed hfailed with hc | hr | ⟨n, hn, hw⟩
    · exact .inl hc
    · exact .inr (.inl hr)
    · exact .inr (.inr ⟨n, hn, (hmem id).2 hw⟩)
  · rw [hmem id, hmem id, hs.cancelling]
    exact h.cancelled
  · rw [hmem id, hs.abortError]
    exact h.aborted
  · exact hs.lawful h.lawful
  · rw [hs.opener, hs.call, hs.ended]
    exact h.exited
  · rw [hs.ended, hs.failure]
    exact h.unfailed
  · rw [hs.opener, hs.abortError]
    exact h.aborting

/-! ## Steps the open does not see -/

namespace SameSession

variable {s s₁ s₂ : Session}

theorem refl (s : Session) : SameSession s s := by
  refine ⟨rfl, rfl, rfl, rfl, rfl, rfl, rfl, rfl, rfl, rfl, rfl, rfl, rfl, rfl, [], ?_, nofun⟩
  rw [List.append_nil]

theorem trans (h₁ : SameSession s s₁) (h₂ : SameSession s₁ s₂) : SameSession s s₂ := by
  obtain ⟨more₁, hlog₁, hquiet₁⟩ := h₁.log
  obtain ⟨more₂, hlog₂, hquiet₂⟩ := h₂.log
  refine ⟨h₂.targets.trans h₁.targets, h₂.target.trans h₁.target, h₂.call.trans h₁.call,
    h₂.received.trans h₁.received, h₂.ready.trans h₁.ready, h₂.ended.trans h₁.ended,
    h₂.failure.trans h₁.failure, h₂.abortError.trans h₁.abortError,
    h₂.cancelling.trans h₁.cancelling, h₂.writeFailed.trans h₁.writeFailed,
    h₂.opening.trans h₁.opening, h₂.reopened.trans h₁.reopened, h₂.lost.trans h₁.lost,
    h₂.lostRetryable.trans h₁.lostRetryable, more₁ ++ more₂, ?_, ?_⟩
  · rw [hlog₂, hlog₁, List.append_assoc]
  · intro x hx
    rcases List.mem_append.1 hx with hx | hx
    · exact hquiet₁ x hx
    · exact hquiet₂ x hx

theorem note (s : Session) {x : Happened} (hx : x.Quiet) : SameSession s (s.note x) := by
  refine ⟨rfl, rfl, rfl, rfl, rfl, rfl, rfl, rfl, rfl, rfl, rfl, rfl, rfl, rfl, [x], rfl, ?_⟩
  intro y hy
  obtain rfl := List.mem_singleton.1 hy
  exact hx

theorem beginWrite {s' : Session} {who : Writer} {body : ClientBody} {charge : Option ℕ}
    (h : s.beginWrite who body charge = some s') : SameSession s s' := by
  unfold Session.beginWrite at h
  split_ifs at h with hended hfinalize
  · obtain rfl := Option.some.inj h
    refine trans ?_ (note _ trivial)
    rcases charge with - | size
    · exact { refl s with }
    · exact { refl s with }
  · obtain rfl := Option.some.inj h
    refine trans ?_ (note _ trivial)
    rcases charge with - | size
    · exact { refl s with }
    · exact { refl s with }

theorem sending (s : Session) (work : Work) : SameSession s (World.sending s work) := by
  cases work with
  | _ => exact { refl s with }

theorem endWrite (s : Session) : SameSession s s.endWrite := { refl s with }

end SameSession

theorem SameOpen.refl (w : World) : SameOpen w w := ⟨.refl _, rfl, rfl, rfl, rfl⟩

theorem SameOpen.trans {w₁ w₂ : World} (h₁ : SameOpen w w₁) (h₂ : SameOpen w₁ w₂) : SameOpen w w₂ :=
  ⟨h₁.toSameSession.trans h₂.toSameSession, h₂.opener.trans h₁.opener, h₂.begins.trans h₁.begins,
    h₂.beginCancelled.trans h₁.beginCancelled, h₂.reader.trans h₁.reader⟩

/-- A session the open sees as the same, and any tasks. -/
theorem SameOpen.of_session {s : Session} (h : SameSession w.session s) (tasks : ℕ → Task)
    (pinger : PingStage) : SameOpen w { w with session := s, tasks := tasks, pinger := pinger } :=
  ⟨h, rfl, rfl, rfl, rfl⟩

theorem SameOpen.leave (w : World) (n : ℕ) (returns : Bool) : SameOpen w (w.leave n returns) := by
  refine SameOpen.of_session (SameSession.trans ?_ (SameSession.note _ ?_)) _ _
  · split
    · exact { SameSession.refl w.session with }
    · exact SameSession.refl _
  · split
    · trivial
    · trivial

theorem SameOpen.stage (w : World) (n : ℕ) (stage : Stage) : SameOpen w (w.stage n stage) :=
  SameOpen.of_session (.refl _) _ _

/-! ## Tasks -/

/-- The task is about to write, or writes. -/
def Stage.sends : Stage → Bool
  | .credit => true
  | .lock _ => true
  | .writing _ => true
  | _ => false

/-- Something was there to write: Ready was read, or the session cancelled. -/
def Writes (s : Session) : Prop := s.ready.isSome ∨ s.cancelling = true

/-- **Who writes has a reason to**: the tasks of the caller's, and the pinger. -/
structure Armed (w : World) : Prop where
  pinger : w.pinger ≠ .absent → w.session.ready.isSome
  tasks : ∀ n, (w.tasks n).stage.sends → Writes w.session

theorem SameOpen.writes (h : SameOpen w w') : Writes w'.session ↔ Writes w.session := by
  unfold Writes
  rw [h.ready, h.cancelling]

/-- One task moves, and the open does not see it. -/
theorem Armed.moves (h : Armed w) (hs : SameOpen w w') (hpinger : w'.pinger = w.pinger) {n : ℕ}
    (hothers : ∀ m, m ≠ n → w'.tasks m = w.tasks m)
    (hsends : (w'.tasks n).stage.sends → Writes w.session) : Armed w' := by
  refine ⟨?_, fun m hm => hs.writes.2 ?_⟩
  · rw [hpinger, hs.ready]
    exact h.pinger
  · by_cases hmn : m = n
    · subst hmn
      exact hsends hm
    · rw [hothers m hmn] at hm
      exact h.tasks m hm

theorem stage_tasks (w : World) (n : ℕ) (stage : Stage) :
    ((w.stage n stage).tasks n).stage = stage ∧
      ∀ m, m ≠ n → (w.stage n stage).tasks m = w.tasks m := by
  unfold World.stage
  refine ⟨?_, fun m hm => Function.update_of_ne hm _ _⟩
  dsimp only
  rw [Function.update_self]

theorem Armed.stage (h : Armed w) {n : ℕ} {stage : Stage} (hsends : stage.sends → Writes w.session) :
    Armed (w.stage n stage) := by
  obtain ⟨hself, hothers⟩ := stage_tasks w n stage
  refine h.moves (SameOpen.stage w n stage) rfl hothers ?_
  rw [hself]
  exact hsends

theorem Armed.leave (h : Armed w) {n : ℕ} {returns : Bool} : Armed (w.leave n returns) := by
  obtain ⟨hself, hothers⟩ := stage_tasks (w.withSession ((if w.session.inputGate = some n then
    { w.session with inputGate := none } else w.session).note
      (if returns then .returned n else .raised n))) n (if returns then .returned else .raised)
  refine h.moves (SameOpen.leave w n returns) rfl hothers fun hsends => ?_
  unfold World.leave at hsends
  rw [hself] at hsends
  split at hsends
  · exact absurd hsends (by simp [Stage.sends])
  · exact absurd hsends (by simp [Stage.sends])

/-- The session changes, and the open does not see it. -/
theorem Armed.withSession (h : Armed w) {s : Session} (hs : SameSession w.session s) :
    Armed (w.withSession s) := by
  refine ⟨?_, fun n hn => ?_⟩
  · show w.pinger ≠ .absent → s.ready.isSome
    rw [hs.ready]
    exact h.pinger
  · have hwrites := h.tasks n hn
    unfold Writes at hwrites ⊢
    show s.ready.isSome ∨ s.cancelling = true
    rwa [hs.ready, hs.cancelling]

theorem ready_of_refuses {s : Session} {work : Work} (h : World.refuses s work = false) :
    s.ready.isSome := by
  unfold World.refuses at h
  cases work with
  | sendAudio bytes samples =>
    rcases hready : s.ready with - | ready
    · rw [hready] at h
      exact absurd h (by simp)
    · rfl
  | sendText bytes =>
    rcases hready : s.ready with - | ready
    · rw [hready] at h
      exact absurd h (by simp)
    · rfl
  | _ =>
    simp only [Bool.not_eq_false'] at h
    unfold Session.checkSending at h
    simp only [Bool.and_eq_true] at h
    exact h.1.1

/-- A step that the open does not see. -/
def Unseen (w w' : World) : Prop := SameOpen w w' ∧ (Armed w → Armed w')

theorem unseen_entered {n : ℕ} (h : w.entered n = some w') : Unseen w w' := by
  unfold World.entered at h
  dsimp only at h
  split_ifs at h with hguard hrefused
  · obtain rfl := Option.some.inj h
    have hs : SameSession w.session { w.session with inputGate := some n } :=
      { SameSession.refl w.session with }
    exact ⟨(SameOpen.of_session hs w.tasks w.pinger).trans (SameOpen.leave _ n false),
      fun harmed => (harmed.withSession hs).leave⟩
  · obtain rfl := Option.some.inj h
    have hs : SameSession w.session { w.session with inputGate := some n } :=
      { SameSession.refl w.session with }
    exact ⟨(SameOpen.of_session hs w.tasks w.pinger).trans (SameOpen.stage _ n _),
      fun harmed => (harmed.withSession hs).stage fun hsends => absurd hsends (by simp [Stage.sends])⟩

theorem unseen_answered {n : ℕ} (h : w.answered n = some w') : Unseen w w' := by
  unfold World.answered at h
  split_ifs at h with hguard hwaits hover hrefused hwork
  · obtain rfl := Option.some.inj h
    exact ⟨SameOpen.leave _ n false, fun harmed => harmed.leave⟩
  · obtain rfl := Option.some.inj h
    exact ⟨SameOpen.leave _ n false, fun harmed => harmed.leave⟩
  · obtain rfl := Option.some.inj h
    have hready := ready_of_refuses (by simpa using hrefused)
    exact ⟨SameOpen.stage _ n _, fun harmed => harmed.stage fun _ => .inl hready⟩
  · obtain rfl := Option.some.inj h
    have hready := ready_of_refuses (by simpa using hrefused)
    exact ⟨SameOpen.stage _ n _, fun harmed => harmed.stage fun _ => .inl hready⟩

theorem unseen_credited {n : ℕ} (h : w.credited n = some w') : Unseen w w' := by
  unfold World.credited at h
  split_ifs at h with hguard hfits hover
  · obtain rfl := Option.some.inj h
    rw [not_or, not_not] at hguard
    refine ⟨SameOpen.stage _ n _, fun harmed => harmed.stage fun _ => harmed.tasks n ?_⟩
    rw [hguard.1]
    rfl
  · obtain rfl := Option.some.inj h
    exact ⟨SameOpen.leave _ n false, fun harmed => harmed.leave⟩

theorem unseen_locked {n : ℕ} (h : w.locked n = some w') : Unseen w w' := by
  unfold World.locked at h
  split at h
  swap
  · exact absurd h (by simp)
  rename_i offset hstage
  have hwrites : Armed w → Writes w.session := fun harmed => harmed.tasks n (by rw [hstage]; rfl)
  split at h
  · exact absurd h (by simp)
  split at h
  · split at h
    · obtain rfl := Option.some.inj h
      exact ⟨SameOpen.stage _ n _,
        fun harmed => harmed.stage fun hs => absurd hs (by simp [Stage.sends])⟩
    · obtain rfl := Option.some.inj h
      have hclosed : SameSession w.session { w.session with
          halfClosed := true, pingerStopped := true, writeLock := some (.task n) } :=
        { SameSession.refl w.session with }
      have hquiet : Happened.Quiet (.doneWriting (w.session.call.getD 0)) := trivial
      have hs := hclosed.trans (SameSession.note _ hquiet)
      exact ⟨(SameOpen.of_session hs w.tasks w.pinger).trans (SameOpen.stage _ n _),
        fun harmed => (harmed.withSession hs).stage fun hs => absurd hs (by simp [Stage.sends])⟩
  · split at h
    · rename_i s hbegin
      obtain rfl := Option.some.inj h
      have hs := (SameSession.beginWrite hbegin).trans (SameSession.sending s (w.tasks n).work)
      refine ⟨(SameOpen.of_session hs w.tasks w.pinger).trans (SameOpen.stage _ n _),
        fun harmed => (harmed.withSession hs).stage fun _ => ?_⟩
      exact ((SameOpen.of_session hs w.tasks w.pinger).writes).2 (hwrites harmed)
    · obtain rfl := Option.some.inj h
      split
      · exact ⟨SameOpen.stage _ n _,
          fun harmed => harmed.stage fun hs => absurd hs (by simp [Stage.sends])⟩
      · exact ⟨SameOpen.leave _ n false, fun harmed => harmed.leave⟩

theorem unseen_woken {n : ℕ} (h : w.woken n = some w') : Unseen w w' := by
  unfold World.woken at h
  split at h
  · exact absurd h (by simp)
  split at h
  · split at h
    · exact absurd h (by simp)
    · obtain rfl := Option.some.inj h
      have hs := SameSession.endWrite w.session
      split
      · exact ⟨(SameOpen.of_session hs w.tasks w.pinger).trans (SameOpen.stage _ n _),
          fun harmed => (harmed.withSession hs).stage fun hs => absurd hs (by simp [Stage.sends])⟩
      · exact ⟨(SameOpen.of_session hs w.tasks w.pinger).trans (SameOpen.leave _ n false),
          fun harmed => (harmed.withSession hs).leave⟩
  · split_ifs at h
    · obtain rfl := Option.some.inj h
      exact ⟨SameOpen.leave _ n _, fun harmed => harmed.leave⟩
    · obtain rfl := Option.some.inj h
      exact ⟨SameOpen.leave _ n _, fun harmed => harmed.leave⟩
  · split_ifs at h
    obtain rfl := Option.some.inj h
    exact ⟨SameOpen.leave _ n _, fun harmed => harmed.leave⟩
  · exact absurd h (by simp)

theorem unseen_unwinds {n : ℕ} (h : w.unwinds n = some w') : Unseen w w' := by
  unfold World.unwinds at h
  split_ifs at h
  obtain rfl := Option.some.inj h
  exact ⟨SameOpen.leave _ n false, fun harmed => harmed.leave⟩

theorem unseen_leaveTask (w : World) (n : ℕ) : Unseen w (w.leaveTask n) := by
  unfold World.leaveTask
  split
  · refine ⟨SameOpen.of_session (.refl _) _ _, fun harmed => ?_⟩
    refine harmed.moves (n := n) (SameOpen.of_session (.refl _) _ _) rfl
      (fun m hm => Function.update_of_ne hm _ _) fun hsends => harmed.tasks n ?_
    dsimp only at hsends
    rw [Function.update_self] at hsends
    exact hsends
  · exact ⟨SameOpen.refl w, id⟩

/-- A write that ended well. -/
theorem unseen_afterWrite (w : World) (n sequence : ℕ) : Unseen w (w.afterWrite n sequence) := by
  have hend := SameSession.endWrite w.session
  have hstage : ∀ (s : Session) (stage : Stage), SameSession w.session s → stage.sends = false →
      Unseen w ((w.withSession s).stage n stage) := by
    intro s stage hs hstage
    exact ⟨(SameOpen.of_session hs w.tasks w.pinger).trans (SameOpen.stage _ n _),
      fun harmed => (harmed.withSession hs).stage fun h => absurd h (by simp [hstage])⟩
  have hleave : ∀ (s : Session), SameSession w.session s →
      Unseen w ((w.withSession s).leave n true) := by
    intro s hs
    exact ⟨(SameOpen.of_session hs w.tasks w.pinger).trans (SameOpen.leave _ n _),
      fun harmed => (harmed.withSession hs).leave⟩
  unfold World.afterWrite
  dsimp only
  split
  · exact hleave _ (hend.trans { SameSession.refl w.session.endWrite with })
  · exact hstage _ _ (hend.trans { SameSession.refl w.session.endWrite with }) rfl
  · exact hstage _ _ hend rfl
  · exact hleave _ hend

end Sdk

end Tensorplate
