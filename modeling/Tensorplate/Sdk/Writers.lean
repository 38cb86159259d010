import Tensorplate.Sdk.OpenRun

/-!
# Who writes

The lock is held by the one task that writes, and by nobody where none
does. Nothing is written before the Open of a call: until Ready or a cancel
only `_begin` writes, so it finds the lock free whenever it makes a call.
-/

namespace Tensorplate

namespace Sdk

open Lib

variable {w w' : World}

/-- An entry that says nothing of what was sent. -/
def Happened.Still : Happened → Prop
  | .connected _ => False
  | .wrote .. => False
  | .doneWriting _ => False
  | .readAnswer _ => False
  | .cancelled => False
  | _ => True

/-- The senders do not see the difference between two sessions, but that one
may be ready, cancelled or over by now. -/
structure SameSend (s s' : Session) : Prop where
  sampleRateHz : s'.sampleRateHz = s.sampleRateHz
  call : s'.call = s.call
  sent : s'.sent = s.sent
  halfClosed : s'.halfClosed = s.halfClosed
  finalizing : s'.finalizing = s.finalizing
  answer : s'.answer = s.answer
  samplesSent : s'.samplesSent = s.samplesSent
  shortFrame : s'.shortFrame = s.shortFrame
  nextSegment : s'.nextSegment = s.nextSegment
  inputGate : s'.inputGate = s.inputGate
  writeLock : s'.writeLock = s.writeLock
  ready : s.ready.isSome → s'.ready = s.ready
  cancelling : s.cancelling = true → s'.cancelling = true
  ended : s.ended = true → s'.ended = true
  log : ∃ more, s'.log = s.log ++ more ∧ ∀ x ∈ more, x.Still

namespace SameSend

variable {s s₁ s₂ : Session}

theorem refl (s : Session) : SameSend s s := by
  refine ⟨rfl, rfl, rfl, rfl, rfl, rfl, rfl, rfl, rfl, rfl, rfl, fun _ => rfl, id, id, [], ?_, nofun⟩
  rw [List.append_nil]

theorem trans (h₁ : SameSend s s₁) (h₂ : SameSend s₁ s₂) : SameSend s s₂ := by
  obtain ⟨more₁, hlog₁, hstill₁⟩ := h₁.log
  obtain ⟨more₂, hlog₂, hstill₂⟩ := h₂.log
  refine ⟨h₂.sampleRateHz.trans h₁.sampleRateHz, h₂.call.trans h₁.call, h₂.sent.trans h₁.sent,
    h₂.halfClosed.trans h₁.halfClosed, h₂.finalizing.trans h₁.finalizing,
    h₂.answer.trans h₁.answer, h₂.samplesSent.trans h₁.samplesSent,
    h₂.shortFrame.trans h₁.shortFrame, h₂.nextSegment.trans h₁.nextSegment,
    h₂.inputGate.trans h₁.inputGate, h₂.writeLock.trans h₁.writeLock, fun hready => ?_,
    fun hc => h₂.cancelling (h₁.cancelling hc), fun he => h₂.ended (h₁.ended he),
    more₁ ++ more₂, ?_, ?_⟩
  · have hready₁ := h₁.ready hready
    exact (h₂.ready (by rwa [hready₁])).trans hready₁
  · rw [hlog₂, hlog₁, List.append_assoc]
  · intro x hx
    rcases List.mem_append.1 hx with hx | hx
    · exact hstill₁ x hx
    · exact hstill₂ x hx

theorem note (s : Session) {x : Happened} (hx : x.Still) : SameSend s (s.note x) := by
  refine { refl s with log := ⟨[x], rfl, fun y hy => ?_⟩ }
  obtain rfl := List.mem_singleton.1 hy
  exact hx

theorem settle (s : Session) (failure : Option SpeechError) : SameSend s (s.settle failure) :=
  { refl s with ended := fun _ => rfl }

theorem abort (s : Session) (error : SpeechError) : SameSend s (s.abort error) := by
  have haborted : Happened.Still .aborted := trivial
  have hmarked : SameSend s { s with abortError := some (s.abortError.getD error) } :=
    { refl s with }
  have hnoted := hmarked.trans (note _ haborted)
  rw [abort_eq]
  split
  · exact hnoted.trans (settle _ none)
  · exact hnoted

theorem shut (s : Session) : SameSend s s.shut := by
  have hshut : Happened.Still .shut := trivial
  have hmarked : SameSend s { s with cancelling := true } :=
    { refl s with cancelling := fun _ => rfl }
  have hnoted := hmarked.trans (note _ hshut)
  rw [shut_eq]
  split
  · exact { hnoted with ended := fun _ => rfl }
  split
  · exact hnoted.trans (settle _ none)
  · exact hnoted

theorem conclude (s : Session) (status : StatusCode) : SameSend s (s.conclude status) := by
  have hconcluded : Happened.Still (.concluded (s.call.getD 0) status s.received) := trivial
  have hnoted := note s hconcluded
  rw [conclude_eq]
  split
  · exact { hnoted with }
  · exact hnoted.trans (settle _ _)

theorem openDone (s : Session) : SameSend s (World.openDone s) := by
  have hopening : SameSend s { s with opening := false } := { refl s with }
  unfold World.openDone
  dsimp only
  split
  · exact hopening.trans (settle _ _)
  · exact hopening

end SameSend

/-- `_begin` holds the lock. -/
def BeginStage.holds : BeginStage → Bool
  | .writing => true
  | .ending => true
  | _ => false

/-- The pinger holds the lock. -/
def PingStage.holds : PingStage → Bool
  | .writing => true
  | .ending => true
  | _ => false

/-- A task of the caller's holds the lock. -/
def Stage.holds : Stage → Bool
  | .writing _ => true
  | .ending => true
  | .doneWriting => true
  | _ => false

/-- A step that the senders do not see. -/
structure Rests (w w' : World) : Prop where
  session : SameSend w.session w'.session
  tasks : w'.tasks = w.tasks
  pinger : w'.pinger.holds = w.pinger.holds
  begins : w'.begins.holds = w.begins.holds
  begun : w.begins ≠ .lock → w'.begins ≠ .lock

/-- **A call is made and its Open written**, before Ready and before any
cancel. -/
structure Connects (w w' : World) : Prop where
  unready : w.session.ready = none
  uncancelled : w.session.cancelling = false
  unended : w.session.ended = false
  unlocked : w.session.writeLock = none
  sampleRateHz : w'.session.sampleRateHz = w.session.sampleRateHz
  call : w'.session.call = some (w.session.call.getD 0 + 1)
  sent : w'.session.sent = (if w.session.call.isSome then 0 else w.session.sent) + 1
  halfClosed : w'.session.halfClosed = w.session.halfClosed
  finalizing : w'.session.finalizing = w.session.finalizing
  answer : w'.session.answer = w.session.answer
  samplesSent : w'.session.samplesSent = w.session.samplesSent
  shortFrame : w'.session.shortFrame = w.session.shortFrame
  nextSegment : w'.session.nextSegment = w.session.nextSegment
  inputGate : w'.session.inputGate = w.session.inputGate
  writeLock : w'.session.writeLock = some .opener
  ready : w'.session.ready = none
  cancelling : w'.session.cancelling = false
  ended : w'.session.ended = false
  log : w'.session.log = w.session.log ++ [.connected (w.session.call.getD 0 + 1),
    .wrote (w.session.call.getD 0 + 1) w'.session.sent .opening]
  tasks : w'.tasks = w.tasks
  pinger : w'.pinger = w.pinger
  begins : w'.begins = .writing

/-- Whether a writer holds the lock, by where it stands. -/
def World.holds (w : World) : Writer → Bool
  | .opener => w.begins.holds
  | .pinger => w.pinger.holds
  | .task n => (w.tasks n).stage.holds

/-- **Who holds the lock**, and what must have happened for a task to hold it. -/
structure Held (w : World) : Prop where
  holder : ∀ who, w.session.writeLock = some who ↔ w.holds who = true
  begun : w.begins ≠ .lock
  writes : ∀ n, (w.tasks n).stage.holds → Writes w.session
  closing : ∀ n, (w.tasks n).work = .close → (w.tasks n).stage.sends → w.session.ready.isSome
  halfClosed : w.session.halfClosed = true → w.session.ready.isSome
  unopened : w.session.call = none → w.session.sent = 0
  opened : w.session.call.isSome → 0 < w.session.sent

/-! ## What the open and the reader do to the senders -/

/-- `_begin` gives the lock back. -/
structure OpenEnds (w w' : World) : Prop where
  held : w.begins.holds = true
  session : w'.session = w.session.endWrite
  tasks : w'.tasks = w.tasks
  pinger : w'.pinger = w.pinger
  begins : w'.begins.holds = false
  begun : w'.begins ≠ .lock

/-- The answer to a Finalize is read. -/
structure Answers (w w' : World) (sequence : ℕ) : Prop where
  finalizing : w.session.finalizing = some sequence
  session : ∃ s, SameSend w.session s ∧ w'.session =
    { s with finalizing := none, answer := some sequence }.note (.readAnswer sequence)
  tasks : w'.tasks = w.tasks
  pinger : w'.pinger = w.pinger
  begins : w'.begins = w.begins

/-- The lock is free before Ready and any cancel, unless `_begin` writes. -/
theorem Held.unlocked (h : Held w) (ha : Armed w) (hready : w.session.ready = none)
    (hcancelling : w.session.cancelling = false) (hbegins : w.begins.holds = false) :
    w.session.writeLock = none := by
  have hnot : ¬Writes w.session := by
    rintro (hr | hc)
    · rw [hready] at hr
      exact absurd hr (by simp)
    · rw [hcancelling] at hc
      exact absurd hc (by simp)
  rcases hlock : w.session.writeLock with - | who
  · rfl
  have hholds := (h.holder who).1 hlock
  rcases who with - | - | n
  · exact absurd (hbegins.symm.trans hholds) (by simp)
  · have hpinger : w.pinger ≠ .absent := by
      intro hp
      have hholds₁ : w.pinger.holds = true := hholds
      rw [hp] at hholds₁
      exact absurd hholds₁ (by simp [PingStage.holds])
    exact absurd (.inl (ha.pinger hpinger)) hnot
  · exact absurd (h.writes n hholds) hnot

theorem Held.unclosed (h : Held w) (hready : w.session.ready = none) :
    w.session.halfClosed = false := by
  rcases hclosed : w.session.halfClosed with - | -
  · rfl
  · have hr := h.halfClosed hclosed
    rw [hready] at hr
    exact absurd hr (by simp)

/-- Where the lock is free the Open is written in the step that makes the call. -/
theorem connectOpen_eq (hlock : w.session.writeLock = none) (hended : w.session.ended = false)
    (hclosed : w.session.halfClosed = false) : w.connectOpen =
      { w with
        session := { w.session with
            call := some (w.session.call.getD 0 + 1)
            sent := w.session.sent + 1
            writeLock := some .opener
            log := w.session.log ++ [.connected (w.session.call.getD 0 + 1)] ++
              [.wrote (w.session.call.getD 0 + 1) (w.session.sent + 1) .opening] }
        reader := .reading
        begins := .writing } := by
  unfold World.connectOpen Session.connected Session.beginWrite Session.note
  simp [hlock, hended, hclosed]

theorem Opens.first_connects (h : Opens w) (ha : Armed w) (hheld : Held w)
    (hcall : w.session.call = none) (hended : w.session.ended = false)
    (hbegins : w.begins.holds = false) : Connects w w.connectOpen := by
  obtain ⟨-, -, hready, -, -, hgivenUp⟩ := h.unopened hcall
  have hcancelling : w.session.cancelling = false := by
    rcases hc : w.session.cancelling with - | -
    · rfl
    · rw [hgivenUp (.inl hc)] at hended
      exact absurd hended (by simp)
  have hlock := hheld.unlocked ha hready hcancelling hbegins
  rw [connectOpen_eq hlock hended (hheld.unclosed hready)]
  refine ⟨hready, hcancelling, hended, hlock, rfl, rfl, ?_, rfl, rfl, rfl, rfl, rfl, rfl, rfl, rfl,
    hready, hcancelling, hended, ?_, rfl, rfl, rfl⟩
  · dsimp only
    rw [hcall]
    rfl
  · dsimp only
    rw [List.append_assoc]
    rfl

theorem Opens.second_connects (h : Opens w) (ha : Armed w) (hheld : Held w)
    (hlost : w.session.lost.isSome) (hbegins : w.begins.holds = false) :
    Connects w (World.connectOpen { w with session := { w.session with
      lost := none, reopened := true, writeFailed := false, sent := 0 } }) := by
  obtain ⟨hended, hcancelling, -, -, -, hcall, -, hready, -⟩ := h.lost hlost
  have hlock := hheld.unlocked ha hready hcancelling hbegins
  rw [connectOpen_eq (by exact hlock) (by exact hended) (by exact hheld.unclosed hready)]
  refine ⟨hready, hcancelling, hended, hlock, rfl, rfl, ?_, rfl, rfl, rfl, rfl, rfl, rfl, rfl, rfl,
    hready, hcancelling, hended, ?_, rfl, rfl, rfl⟩
  · dsimp only
    rw [hcall]
    rfl
  · dsimp only
    rw [List.append_assoc]
    rfl

theorem SameSend.readied {s s' : Session} (h : SameSend s s') (hready : s.ready.isSome) :
    s'.ready.isSome := by
  rwa [h.ready hready]

theorem SameSend.writes {s s' : Session} (h : SameSend s s') (hw : Writes s) : Writes s' := by
  rcases hw with hr | hc
  · exact .inl (h.readied hr)
  · exact .inr (h.cancelling hc)

theorem Rests.holds (h : Rests w w') (who : Writer) : w'.holds who = w.holds who := by
  rcases who with - | - | n
  · exact h.begins
  · exact h.pinger
  · show (w'.tasks n).stage.holds = (w.tasks n).stage.holds
    rw [h.tasks]

/-- **What the senders do not see leaves the lock where it is.** -/
theorem Held.rests (h : Held w) (hr : Rests w w') : Held w' where
  holder who := by
    rw [hr.session.writeLock, h.holder, hr.holds]
  begun := hr.begun h.begun
  writes n hn := by
    rw [hr.tasks] at hn
    exact hr.session.writes (h.writes n hn)
  closing n hn hs := by
    rw [hr.tasks] at hn hs
    exact hr.session.readied (h.closing n hn hs)
  halfClosed hc := by
    rw [hr.session.halfClosed] at hc
    exact hr.session.readied (h.halfClosed hc)
  unopened hc := by
    rw [hr.session.call] at hc
    rw [hr.session.sent]
    exact h.unopened hc
  opened hc := by
    rw [hr.session.call] at hc
    rw [hr.session.sent]
    exact h.opened hc

/-- `_begin` makes a call or leaves the senders alone. -/
def Goes (w w' : World) : Prop := Rests w w' ∨ ∃ w₁, Rests w w₁ ∧ Connects w₁ w'

theorem rests_stage {s : Session} {stage : BeginStage} {reader : ReadStage} {opener : OpenStage}
    {b : Bool} (hs : SameSend w.session s) (hholds : stage.holds = w.begins.holds)
    (hlock : w.begins ≠ .lock → stage ≠ .lock) : Rests w { w with
      session := s, begins := stage, beginCancelled := b, reader := reader, opener := opener } :=
  ⟨hs, rfl, rfl, hholds, hlock⟩

theorem Rests.refl (w : World) : Rests w w := ⟨SameSend.refl _, rfl, rfl, rfl, id⟩

theorem Rests.trans {w₁ : World} (h₁ : Rests w w₁) (h₂ : Rests w₁ w') : Rests w w' :=
  ⟨h₁.session.trans h₂.session, h₂.tasks.trans h₁.tasks, h₂.pinger.trans h₁.pinger,
    h₂.begins.trans h₁.begins, fun hb => h₂.begun (h₁.begun hb)⟩

theorem Rests.goes {w₁ : World} (h₁ : Rests w w₁) (h₂ : Goes w₁ w') : Goes w w' := by
  rcases h₂ with hr | ⟨w₂, hr, hc⟩
  · exact .inl (h₁.trans hr)
  · exact .inr ⟨w₂, h₁.trans hr, hc⟩

theorem goes_connectAgain (h : Opens w) (ha : Armed w) (hheld : Held w)
    (hlost : w.session.lost.isSome) (hbegins : w.begins.holds = false) (channel : Bool) :
    Goes w (w.connectAgain channel) := by
  unfold World.connectAgain
  split
  · exact .inl (rests_stage (SameSend.shut _) (by rw [hbegins]; rfl) fun _ => nofun)
  · exact .inr ⟨w, Rests.refl w, h.second_connects ha hheld hlost hbegins⟩

theorem goes_beginRaised (h : Opens w) (ha : Armed w) (hheld : Held w)
    (hbegins : w.begins.holds = false) (channel : Bool) : Goes w (w.beginRaised channel) := by
  unfold World.beginRaised
  split
  · exact .inl (rests_stage (SameSend.refl _) (by rw [hbegins]; rfl) fun _ => nofun)
  rename_i hsome
  have hlost : w.session.lost.isSome := by simpa [Option.isSome_iff_ne_none] using hsome
  split
  · exact .inl (rests_stage (SameSend.refl _) (by rw [hbegins]; rfl) fun _ => nofun)
  · exact goes_connectAgain h ha hheld hlost hbegins channel

theorem goes_first {s : Session} {channel : Bool} (h : Opens (w.withSession s))
    (ha : Armed (w.withSession s)) (hheld : Held w) (hbegins : w.begins = .fresh)
    (hs : SameSend w.session s)
    (hstep : (if s.ended then some { w with session := s, begins := .raised }
      else if !channel then some { w with session := s.shut, begins := .raised }
      else some (World.connectOpen { w with session := s })) = some w') : Goes w w' := by
  have hholds : w.begins.holds = false := by
    rw [hbegins]
    rfl
  split at hstep
  · obtain rfl := Option.some.inj hstep
    exact .inl (rests_stage hs (by rw [hholds]; rfl) fun _ => nofun)
  rename_i hended
  split at hstep
  · obtain rfl := Option.some.inj hstep
    exact .inl (rests_stage (hs.trans (SameSend.shut _)) (by rw [hholds]; rfl) fun _ => nofun)
  · obtain rfl := Option.some.inj hstep
    have hrests : Rests w (w.withSession s) := rests_stage hs rfl id
    exact .inr ⟨w.withSession s, hrests, h.first_connects ha (hheld.rests hrests)
      (h.fresh hbegins).1 (Bool.eq_false_iff.2 hended) hholds⟩

theorem goes_beginFresh {found : Except String StreamTarget} {channel : Bool} (h : Opens w)
    (ha : Armed w) (hheld : Held w) (hstep : w.beginFresh found channel = some w') : Goes w w' := by
  unfold World.beginFresh at hstep
  split at hstep
  · exact absurd hstep (by simp)
  rename_i hguard
  rw [not_or, not_not] at hguard
  have hbegins := hguard.1
  dsimp only at hstep
  rcases htargets : w.session.targets with - | -
  · rw [if_neg (by simp [htargets])] at hstep
    exact goes_first h ha hheld hbegins (SameSend.refl _) hstep
  · rw [if_pos htargets] at hstep
    rcases found with what | target
    · obtain rfl := Option.some.inj hstep
      exact .inl (rests_stage (SameSend.settle _ _) (by rw [hbegins]; rfl) fun _ => nofun)
    · refine goes_first ?_ ?_ hheld hbegins ?_ hstep
      · split
        · exact h
        · exact h.retarget target
      · split
        · exact ha
        · exact ha.retarget target
      · split
        · exact SameSend.refl _
        · exact { SameSend.refl w.session with }

theorem goes_openAnswered {channel : Bool} (h : Opens w) (ha : Armed w) (hheld : Held w)
    (hstep : w.openAnswered channel = some w') : Goes w w' := by
  unfold World.openAnswered at hstep
  split at hstep
  · exact absurd hstep (by simp)
  rename_i hguard
  rw [not_or, not_not] at hguard
  have hholds : w.begins.holds = false := by
    rw [hguard.1]
    rfl
  split at hstep
  · obtain rfl := Option.some.inj hstep
    exact .inl (rests_stage (SameSend.refl _) (by rw [hholds]; rfl) fun _ => nofun)
  split at hstep
  · obtain rfl := Option.some.inj hstep
    exact goes_beginRaised h ha hheld hholds channel
  · exact absurd hstep (by simp)

theorem goes_follow {found : Except String StreamTarget} {channel : Bool} (h : Opens w)
    (ha : Armed w) (hheld : Held w) (hstep : w.follow found channel = some w') : Goes w w' := by
  unfold World.follow at hstep
  split at hstep
  · exact absurd hstep (by simp)
  rename_i hguard
  rw [not_or, not_not] at hguard
  have hholds : w.begins.holds = false := by
    rw [hguard.1]
    rfl
  obtain ⟨-, -, hkept⟩ := h.follow hguard.1
  split at hstep
  · obtain rfl := Option.some.inj hstep
    exact .inl (rests_stage (SameSend.settle _ _) (by rw [hholds]; rfl) fun _ => nofun)
  rename_i target
  have hnamed : Happened.Still (.named w.session.target target) := trivial
  have hnoted := SameSend.note w.session hnamed
  dsimp only at hstep
  split at hstep
  · obtain rfl := Option.some.inj hstep
    exact .inl (rests_stage hnoted (by rw [hholds]; rfl) fun _ => nofun)
  rename_i hended
  split at hstep
  · obtain rfl := Option.some.inj hstep
    exact .inl (rests_stage (hnoted.trans (SameSend.settle _ _)) (by rw [hholds]; rfl)
      fun _ => nofun)
  · obtain rfl := Option.some.inj hstep
    have hlost : w.session.lost.isSome := by
      rcases hkept (by simpa using hguard.2) with hl | ⟨he, -⟩
      · exact hl
      · exact absurd he hended
    have hopens := (h.note (x := .named w.session.target target) nofun nofun nofun).retarget target
    have hrests : Rests w (w.withSession
        { w.session.note (.named w.session.target target) with target := target }) :=
      rests_stage { hnoted with } rfl id
    exact hrests.goes (goes_connectAgain hopens ⟨ha.pinger, ha.tasks⟩ (hheld.rests hrests) hlost
      hholds channel)

theorem rests_openCalled (h : Opens w) (hstep : w.openCalled = some w') : Rests w w' := by
  unfold World.openCalled at hstep
  split at hstep
  · exact absurd hstep (by simp)
  rename_i hguard
  simp only [Bool.or_eq_true, not_or, Bool.not_eq_true, Option.isSome_eq_false_iff,
    Option.isNone_iff_eq_none] at hguard
  obtain rfl := Option.some.inj hstep
  obtain ⟨-, -, -, -, hbegins, -⟩ := h.unopened hguard.1.2
  refine rests_stage { SameSend.refl w.session with } ?_ fun _ => nofun
  rcases hbegins with hb | hb | hb
  · rw [hb]
    rfl
  · rw [hb]
  · rw [hb]
    rfl

theorem rests_openAttemptFailed (hstep : w.openAttemptFailed = some w') : Rests w w' := by
  unfold World.openAttemptFailed at hstep
  split at hstep
  · exact absurd hstep (by simp)
  obtain rfl := Option.some.inj hstep
  have hfailed : SameSend w.session { w.session with writeFailed := true } :=
    { SameSend.refl w.session with }
  have hstill : Happened.Still (.openWriteFailed (w.session.call.getD 0)) := trivial
  exact rests_stage (hfailed.trans (SameSend.note _ hstill)) rfl id

theorem rests_beginUnwinds (hstep : w.beginUnwinds = some w') : Rests w w' := by
  unfold World.beginUnwinds at hstep
  split at hstep
  · rename_i hguard
    obtain rfl := Option.some.inj hstep
    refine rests_stage (SameSend.refl _) ?_ fun _ => nofun
    have hmem := hguard.2
    simp only [List.mem_cons, List.not_mem_nil, or_false] at hmem
    rcases hmem with hb | hb | hb | hb
    · rw [hb]
      rfl
    · rw [hb]
      rfl
    · rw [hb]
      rfl
    · rw [hb]
      rfl
  · exact absurd hstep (by simp)

theorem rests_openRaises (w : World) : Rests w w.openRaises := by
  have hraised : Happened.Still .openRaised := trivial
  unfold World.openRaises
  dsimp only
  split
  · exact rests_stage (((SameSend.abort _ _).trans (SameSend.openDone _)).trans
      (SameSend.note _ hraised)) rfl id
  · exact rests_stage ((SameSend.openDone _).trans (SameSend.note _ hraised)) rfl id

theorem rests_leaveBegin (w : World) : Rests w w.leaveBegin := by
  rw [(leaveBegin_eq w).1]
  exact rests_stage (SameSend.refl _) rfl id

theorem rests_openStep {e : World.OpenEnd} (hstep : w.openStep e = some w') : Rests w w' := by
  unfold World.openStep at hstep
  split at hstep
  · split at hstep
    · exact absurd hstep (by simp)
    split at hstep
    · obtain rfl := Option.some.inj hstep
      have hreturned : Happened.Still .openReturned := trivial
      exact rests_stage ((SameSend.openDone _).trans (SameSend.note _ hreturned)) rfl id
    split at hstep
    · obtain rfl := Option.some.inj hstep
      exact rests_openRaises w
    · exact absurd hstep (by simp)
  · split at hstep
    · exact absurd hstep (by simp)
    obtain rfl := Option.some.inj hstep
    exact (rests_leaveBegin w).trans (rests_stage (SameSend.abort _ _) rfl id)
  · split at hstep
    · exact absurd hstep (by simp)
    obtain rfl := Option.some.inj hstep
    exact rests_openRaises w
  · split at hstep
    · obtain rfl := Option.some.inj hstep
      exact (rests_leaveBegin w).trans (rests_openRaises _)
    split at hstep
    · obtain rfl := Option.some.inj hstep
      exact rests_openRaises w
    · exact absurd hstep (by simp)

theorem rests_readEnds {error : Option SpeechError} (hstep : w.readEnds error = some w') :
    Rests w w' := by
  unfold World.readEnds at hstep
  split at hstep
  · exact absurd hstep (by simp)
  split at hstep
  · obtain rfl := Option.some.inj hstep
    exact rests_stage (SameSend.abort _ _) rfl id
  · obtain rfl := Option.some.inj hstep
    exact rests_stage (SameSend.refl _) rfl id

theorem rests_concludes {status : StatusCode} (hstep : w.concludes status = some w') :
    Rests w w' := by
  unfold World.concludes at hstep
  split at hstep
  · exact absurd hstep (by simp)
  obtain rfl := Option.some.inj hstep
  exact rests_stage (SameSend.conclude _ _) rfl id

/-- The write of the Open is over: the lock is free, or the failed write holds it. -/
theorem openWritten_cases {ok : Bool} (hstep : w.openWritten ok = some w') :
    Rests w w' ∨ OpenEnds w w' := by
  unfold World.openWritten at hstep
  split at hstep
  · exact absurd hstep (by simp)
  rename_i hguard
  rw [not_or, not_not] at hguard
  have hholds : w.begins.holds = true := by
    rw [hguard.1]
    rfl
  split at hstep
  · obtain rfl := Option.some.inj hstep
    exact .inr ⟨hholds, rfl, rfl, rfl, rfl, nofun⟩
  · obtain rfl := Option.some.inj hstep
    have hfailed : SameSend w.session { w.session with writeFailed := true } :=
      { SameSend.refl w.session with }
    have hstill : Happened.Still (.openWriteFailed (w.session.call.getD 0)) := trivial
    exact .inl (rests_stage (hfailed.trans (SameSend.note _ hstill)) (by rw [hholds]; rfl)
      fun _ => nofun)

/-- `_begin` gives the lock back, and goes on from there. -/
theorem openEnding_cases {channel : Bool} (h : Opens w) (ha : Armed w)
    (hheld : ∀ {w₁ : World}, OpenEnds w w₁ → Held w₁) (hstep : w.openEnding channel = some w') :
    ∃ w₁, OpenEnds w w₁ ∧ Goes w₁ w' := by
  unfold World.openEnding at hstep
  split at hstep
  · exact absurd hstep (by simp)
  rename_i hguard
  rw [not_or, not_not] at hguard
  obtain rfl := Option.some.inj hstep
  have hends : OpenEnds w { w with session := w.session.endWrite, begins := .raised } := by
    refine ⟨?_, rfl, rfl, rfl, rfl, nofun⟩
    rw [hguard.1]
    rfl
  have hopens : Opens { w with session := w.session.endWrite, begins := .raised } :=
    h.raises.same ⟨SameSession.endWrite _, rfl, rfl, rfl, rfl⟩
  exact ⟨_, hends, goes_beginRaised hopens ⟨ha.pinger, ha.tasks⟩ (hheld hends) rfl channel⟩

/-- What an event may do to the senders. -/
theorem takeBody_sends {s s' : Session} {body : ServerBody} (h : s.takeBody body = .ok s') :
    SameSend s s' ∨ ∃ sequence, s.finalizing = some sequence ∧
      s' = { s with finalizing := none, answer := some sequence }.note (.readAnswer sequence) := by
  rcases takeBody_cases h with ⟨credit, unaccepted, accepted, closed, rfl⟩ | ⟨ready, hnone, rfl⟩ |
    hanswer
  · exact .inl { SameSend.refl s with }
  · have hread : Happened.Still (.readReady (s.call.getD 0)) := trivial
    have hset : SameSend s { s with credit := ready.inputCredit, ready := some ready } :=
      { SameSend.refl s with ready := fun hr => absurd hr (by simp [hnone]) }
    exact .inl (hset.trans (SameSend.note _ hread))
  · exact .inr hanswer

/-- An event is read: the senders do not see it, or it is an answer. -/
theorem read_cases {event : ServerEvent} (ha : Armed w) (hstep : w.read event = some w') :
    Rests w w' ∨ ∃ sequence, Answers w w' sequence := by
  unfold World.read at hstep
  split at hstep
  · exact absurd hstep (by simp)
  have hcounted : SameSend w.session { w.session with received := w.session.received + 1 } :=
    { SameSend.refl w.session with }
  split at hstep
  · rename_i s error htake
    obtain rfl := Option.some.inj hstep
    obtain ⟨hs, -⟩ := Prod.mk.inj htake
    subst hs
    exact .inl (rests_stage (hcounted.trans (SameSend.abort _ _)) rfl id)
  · rename_i s₀ s htake
    obtain rfl := Option.some.inj hstep
    obtain ⟨-, htaken⟩ := Prod.mk.inj htake
    dsimp only at htaken
    split_ifs at htaken
    rcases takeBody_sends htaken with hsame | ⟨sequence, hwaits, rfl⟩
    · refine .inl ⟨hcounted.trans hsame, rfl, ?_, rfl, id⟩
      dsimp only
      split
      · rename_i hready
        -- The pinger is started with Ready, so it was not there before.
        have habsent : w.pinger = .absent := by
          by_contra hp
          have hsome := ha.pinger hp
          rw [Option.isNone_iff_eq_none.1 hready.2] at hsome
          exact absurd hsome (by simp)
        rw [habsent]
        rfl
      · rfl
    · refine .inr ⟨sequence, hwaits, ⟨_, hcounted, rfl⟩, rfl, ?_, rfl⟩
      refine if_neg ?_
      rintro ⟨hsome, hnone⟩
      have hsome₁ : w.session.ready.isSome := hsome
      rw [Option.isNone_iff_eq_none.1 hnone] at hsome₁
      exact absurd hsome₁ (by simp)

end Sdk

end Tensorplate
