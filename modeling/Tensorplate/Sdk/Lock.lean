import Tensorplate.Sdk.Acts

/-!
# The write lock

Every step of the world is a step of the open that the senders do not see,
a call that is made, a write that begins or ends, an answer that is read, or
a step of one task; each of them leaves the lock with the one writer that
holds it.
-/

namespace Tensorplate

namespace Sdk

open Lib

variable {w w' : World}

/-- The pinger starts to write. -/
structure PingWrites (w w' : World) : Prop where
  stage : w.pinger = .lock
  unlocked : w.session.writeLock = none
  writes : ∃ s, w.session.beginWrite .pinger .ping = some s ∧
    w' = { w with session := s, pinger := .writing }

/-- The pinger gives the lock back. -/
structure PingEnds (w w' : World) : Prop where
  held : w.pinger.holds = true
  ends : ∃ stage : PingStage, stage.holds = false ∧ stage ≠ .absent ∧
    w' = { w with session := w.session.endWrite, pinger := stage }

theorem ping_cases {ok : Bool} (h : w.ping ok = some w') :
    Rests w w' ∨ PingWrites w w' ∨ PingEnds w w' := by
  have hrests : ∀ stage : PingStage, stage.holds = w.pinger.holds → Rests w { w with pinger := stage } :=
    fun stage hholds => ⟨SameSend.refl _, rfl, hholds, rfl, id⟩
  unfold World.ping at h
  split at h
  · rename_i hstage
    split at h
    · obtain rfl := Option.some.inj h
      exact .inl (hrests _ (by rw [hstage]; rfl))
    · obtain rfl := Option.some.inj h
      exact .inl (hrests _ (by rw [hstage]; rfl))
  · rename_i hstage
    split at h
    · obtain rfl := Option.some.inj h
      exact .inl (hrests _ (by rw [hstage]; rfl))
    split at h
    · exact absurd h (by simp)
    rename_i hlock
    split at h
    · rename_i s hbegin
      exact .inr (.inl ⟨hstage, by simpa using hlock, s, hbegin, (Option.some.inj h).symm⟩)
    · obtain rfl := Option.some.inj h
      exact .inl (hrests _ (by rw [hstage]; rfl))
  · rename_i hstage
    have hholds : w.pinger.holds = true := by
      rw [hstage]
      rfl
    split at h
    · exact .inr (.inr ⟨hholds, .sleeping, rfl, nofun, (Option.some.inj h).symm⟩)
    · obtain rfl := Option.some.inj h
      exact .inl ⟨{ SameSend.refl w.session with }, rfl, hholds.symm, rfl, id⟩
  · rename_i hstage
    split at h
    · exact .inr (.inr ⟨by rw [hstage]; rfl, .done, rfl, nofun, (Option.some.inj h).symm⟩)
    · exact absurd h (by simp)
  · exact absurd h (by simp)

/-! ## The holder -/

theorem holder_same (h : Held w) (hlock : w'.session.writeLock = w.session.writeLock)
    (hholds : ∀ who, w'.holds who = w.holds who) (who : Writer) :
    w'.session.writeLock = some who ↔ w'.holds who = true := by
  rw [hlock, hholds]
  exact h.holder who

/-- A free lock is taken. -/
theorem holder_takes (h : Held w) {x : Writer} (hfree : w.session.writeLock = none)
    (hlock : w'.session.writeLock = some x) (hx : w'.holds x = true)
    (hothers : ∀ who, who ≠ x → w'.holds who = w.holds who) (who : Writer) :
    w'.session.writeLock = some who ↔ w'.holds who = true := by
  rw [hlock]
  by_cases hwho : who = x
  · subst hwho
    exact ⟨fun _ => hx, fun _ => rfl⟩
  · rw [hothers who hwho, ← h.holder who, hfree]
    constructor
    · intro heq
      exact absurd (Option.some.inj heq).symm hwho
    · exact nofun

/-- The lock is given back by who holds it. -/
theorem holder_gives (h : Held w) {x : Writer} (hheld : w.holds x = true)
    (hlock : w'.session.writeLock = none) (hx : w'.holds x = false)
    (hothers : ∀ who, who ≠ x → w'.holds who = w.holds who) (who : Writer) :
    w'.session.writeLock = some who ↔ w'.holds who = true := by
  rw [hlock]
  by_cases hwho : who = x
  · subst hwho
    rw [hx]
    exact ⟨nofun, nofun⟩
  · rw [hothers who hwho, ← h.holder who, (h.holder x).2 hheld]
    constructor
    · exact nofun
    · intro heq
      exact absurd (Option.some.inj heq).symm hwho

/-- What a step leaves of the session, the lock apart. -/
structure Level (s s' : Session) : Prop where
  call : s'.call = s.call
  sent : s'.sent = s.sent
  halfClosed : s'.halfClosed = s.halfClosed
  readied : s.ready.isSome → s'.ready.isSome
  cancelling : s.cancelling = true → s'.cancelling = true

theorem SameSend.level {s s' : Session} (h : SameSend s s') : Level s s' :=
  ⟨h.call, h.sent, h.halfClosed, h.readied, h.cancelling⟩

theorem Level.refl (s : Session) : Level s s := ⟨rfl, rfl, rfl, id, id⟩

theorem Level.left (s : Session) (n : ℕ) (returns : Bool) : Level s (s.left n returns) := by
  unfold Session.left
  split
  · exact ⟨rfl, rfl, rfl, id, id⟩
  · exact ⟨rfl, rfl, rfl, id, id⟩

theorem Level.trans {s s₁ s₂ : Session} (h₁ : Level s s₁) (h₂ : Level s₁ s₂) : Level s s₂ :=
  ⟨h₂.call.trans h₁.call, h₂.sent.trans h₁.sent, h₂.halfClosed.trans h₁.halfClosed,
    fun hr => h₂.readied (h₁.readied hr), fun hc => h₂.cancelling (h₁.cancelling hc)⟩

theorem Level.writes {s s' : Session} (h : Level s s') (hw : Writes s) : Writes s' := by
  rcases hw with hr | hc
  · exact .inl (h.readied hr)
  · exact .inr (h.cancelling hc)

theorem Level.endWrite (s : Session) : Level s s.endWrite := ⟨rfl, rfl, rfl, id, id⟩

theorem waits_holds {stage : Stage} (h : World.Stage.waits stage = true) : stage.holds = false := by
  cases stage with
  | writing sequence => exact absurd h (by simp [World.Stage.waits])
  | ending => exact absurd h (by simp [World.Stage.waits])
  | doneWriting => exact absurd h (by simp [World.Stage.waits])
  | _ => rfl

theorem left_writeLock (s : Session) (n : ℕ) (returns : Bool) :
    (s.left n returns).writeLock = s.writeLock := by
  unfold Session.left
  split
  · rfl
  · rfl

theorem beginWrite_eq {s s' : Session} {who : Writer} {body : ClientBody} {charge : Option ℕ}
    (h : s.beginWrite who body charge = some s') :
    s.ended = false ∧ s.halfClosed = false ∧ ∃ unaccepted lastInput, s' = { s with
        sent := s.sent + 1
        writeLock := some who
        unaccepted := unaccepted
        lastInput := lastInput
        finalizing := if body = .finalize then some (s.sent + 1) else s.finalizing
        log := s.log ++ [.wrote (s.call.getD 0) (s.sent + 1) body] } := by
  unfold Session.beginWrite at h
  split at h
  · exact absurd h (by simp)
  rename_i hguard
  rw [Bool.or_eq_true, not_or, Bool.not_eq_true, Bool.not_eq_true] at hguard
  refine ⟨hguard.1, hguard.2, ?_⟩
  obtain rfl := Option.some.inj h
  rcases charge with - | size
  · refine ⟨s.unaccepted, s.lastInput, ?_⟩
    dsimp only
    split
    · rfl
    · rfl
  · refine ⟨s.unaccepted ++ [(s.sent + 1, size)], s.sent + 1, ?_⟩
    dsimp only
    split
    · rfl
    · rfl

/-- The segments a call of the caller's sends. -/
def Work.segments : Work → ℕ
  | .sendText _ => 1
  | _ => 0

theorem sending_eq (s : Session) (work : Work) : ∃ synthesisText, World.sending s work =
    { s with nextSegment := s.nextSegment + work.segments, synthesisText := synthesisText } := by
  rcases work with - | bytes | - | - | -
  · exact ⟨s.synthesisText, rfl⟩
  · exact ⟨s.synthesisText + bytes, rfl⟩
  · exact ⟨s.synthesisText, rfl⟩
  · exact ⟨s.synthesisText, rfl⟩
  · exact ⟨s.synthesisText, rfl⟩

/-! ## Every step -/

/-- The session and one record are replaced. -/
theorem Held.put (h : Held w) {s : Session} {n : ℕ} {t : Task}
    (hholder : ∀ who, (w.put s n t).session.writeLock = some who ↔ (w.put s n t).holds who = true)
    (hwrites : t.stage.holds → Writes s)
    (hclosing : t.work = .close → t.stage.sends → s.ready.isSome)
    (hlevel : Level w.session s) : Held (w.put s n t) where
  holder := hholder
  begun := h.begun
  writes m hm := by
    by_cases hmn : m = n
    · subst hmn
      unfold World.put at hm
      dsimp only at hm
      rw [Function.update_self] at hm
      exact hwrites hm
    · unfold World.put at hm
      dsimp only at hm
      rw [Function.update_of_ne hmn] at hm
      exact hlevel.writes (h.writes m hm)
  closing m hwork hsends := by
    by_cases hmn : m = n
    · subst hmn
      unfold World.put at hwork hsends
      dsimp only at hwork hsends
      rw [Function.update_self] at hwork hsends
      exact hclosing hwork hsends
    · unfold World.put at hwork hsends
      dsimp only at hwork hsends
      rw [Function.update_of_ne hmn] at hwork hsends
      exact hlevel.readied (h.closing m hwork hsends)
  halfClosed hc := hlevel.readied (h.halfClosed (hlevel.halfClosed.symm.trans hc))
  unopened hc := hlevel.sent.trans (h.unopened (hlevel.call.symm.trans hc))
  opened hc := by
    have hsome : w.session.call.isSome := by
      rw [← hlevel.call]
      exact hc
    have hpos := h.opened hsome
    rw [← hlevel.sent] at hpos
    exact hpos

theorem put_holds_self (w : World) (s : Session) (n : ℕ) (t : Task) :
    (w.put s n t).holds (.task n) = t.stage.holds := by
  show ((Function.update w.tasks n t) n).stage.holds = t.stage.holds
  rw [Function.update_self]

theorem put_holds_of_ne (w : World) (s : Session) {n : ℕ} (t : Task) {who : Writer}
    (h : who ≠ .task n) : (w.put s n t).holds who = w.holds who := by
  rcases who with - | - | m
  · rfl
  · rfl
  · have hmn : m ≠ n := by
      rintro rfl
      exact h rfl
    show ((Function.update w.tasks n t) m).stage.holds = (w.tasks m).stage.holds
    rw [Function.update_of_ne hmn]

/-- A task that does not write goes on, and does not write. -/
theorem Held.putSame (h : Held w) {s : Session} {n : ℕ} {t : Task}
    (hlock : s.writeLock = w.session.writeLock) (hlevel : Level w.session s)
    (hholds : t.stage.holds = (w.tasks n).stage.holds)
    (hclosing : t.work = .close → t.stage.sends → s.ready.isSome) : Held (w.put s n t) := by
  refine h.put (holder_same h hlock fun who => ?_) (fun ht => ?_) hclosing hlevel
  · by_cases hwho : who = .task n
    · subst hwho
      rw [put_holds_self, hholds]
      rfl
    · exact put_holds_of_ne w s t hwho
  · rw [hholds] at ht
    exact hlevel.writes (h.writes n ht)

/-- A task that writes gives the lock back. -/
theorem Held.putGives (h : Held w) {s : Session} {n : ℕ} {t : Task}
    (hheld : (w.tasks n).stage.holds = true) (hlock : s.writeLock = none)
    (hlevel : Level w.session s) (hholds : t.stage.holds = false)
    (hsends : t.stage.sends = false) : Held (w.put s n t) := by
  refine h.put (holder_gives h (x := .task n) hheld hlock ?_ fun who hwho => ?_) (fun ht => ?_)
    (fun _ hs => ?_) hlevel
  · rw [put_holds_self, hholds]
  · exact put_holds_of_ne w s t hwho
  · rw [hholds] at ht
    exact absurd ht (by simp)
  · rw [hsends] at hs
    exact absurd hs (by simp)

/-- A write begins only on a session with a call. -/
theorem Opens.call_of_writes (h : Opens w) (hwrites : Writes w.session)
    (hended : w.session.ended = false) : w.session.call.isSome := by
  rcases hcall : w.session.call with - | n
  · obtain ⟨-, -, hready, -, -, hgivenUp⟩ := h.unopened hcall
    rcases hwrites with hr | hc
    · rw [hready] at hr
      exact absurd hr (by simp)
    · rw [hgivenUp (.inl hc)] at hended
      exact absurd hended (by simp)
  · rfl

/-- A writer other than `_begin` takes the lock and writes. -/
theorem Held.takes (h : Held w) {x : Writer} (hfree : w.session.writeLock = none)
    (hlock : w'.session.writeLock = some x) (hx : w'.holds x = true)
    (hothers : ∀ who, who ≠ x → w'.holds who = w.holds who) (hbegins : w'.begins = w.begins)
    (htasks : ∀ n, (w'.tasks n).work = (w.tasks n).work ∧
      ((w'.tasks n).stage.sends → (w.tasks n).stage.sends)) (hwrites : Writes w.session)
    (hready : w'.session.ready = w.session.ready)
    (hcancelling : w'.session.cancelling = w.session.cancelling)
    (hhalf : w'.session.halfClosed = true → w.session.ready.isSome)
    (hcall : w'.session.call = w.session.call) (hsome : w.session.call.isSome)
    (hsent : 0 < w'.session.sent) : Held w' where
  holder := holder_takes h hfree hlock hx hothers
  begun := by
    rw [hbegins]
    exact h.begun
  writes n _ := by
    unfold Writes
    rw [hready, hcancelling]
    exact hwrites
  closing n hwork hsends := by
    rw [(htasks n).1] at hwork
    rw [hready]
    exact h.closing n hwork ((htasks n).2 hsends)
  halfClosed hc := by
    rw [hready]
    exact hhalf hc
  unopened hc := by
    rw [hcall] at hc
    rw [hc] at hsome
    exact absurd hsome (by simp)
  opened _ := hsent

theorem put_tasks_sends {s : Session} {n : ℕ} {t : Task} (hwork : t.work = (w.tasks n).work)
    (hsends : t.stage.sends → (w.tasks n).stage.sends) (m : ℕ) :
    ((w.put s n t).tasks m).work = (w.tasks m).work ∧
      (((w.put s n t).tasks m).stage.sends → (w.tasks m).stage.sends) := by
  unfold World.put
  dsimp only
  by_cases hmn : m = n
  · subst hmn
    rw [Function.update_self]
    exact ⟨hwork, hsends⟩
  · rw [Function.update_of_ne hmn]
    exact ⟨rfl, id⟩

/-- **A step of a task leaves the lock with its holder.** -/
theorem Held.acts (h : Held w) (hopens : Opens w) (ha : Armed w) {n : ℕ} (hacts : ActsOf n w w') :
    Held w' := by
  obtain ⟨s, t, hact, rfl⟩ := hacts
  cases hact with
  | called hstage hwork =>
    refine h.putSame rfl (Level.refl _) (by rw [hstage]; rfl) fun hclose hs => ?_
    exact absurd hs (by simp [Stage.sends])
  | closes hstage hready => exact h.putSame rfl (Level.refl _) (by rw [hstage]; rfl) fun _ _ => hready
  | unready hstage =>
    exact h.putSame (left_writeLock ..) (Level.left ..) (by rw [hstage]; rfl)
      fun _ hs => absurd hs (by simp [Stage.sends])
  | enters hstage hgate hcheck =>
    exact h.putSame rfl ⟨rfl, rfl, rfl, id, id⟩ (by rw [hstage]; rfl)
      fun _ hs => absurd hs (by simp [Stage.sends])
  | shutOut hstage hgate =>
    have hgated : Level w.session { w.session with inputGate := some n } := ⟨rfl, rfl, rfl, id, id⟩
    exact h.putSame (left_writeLock ..) (hgated.trans (Level.left _ n false)) (by rw [hstage]; rfl)
      fun _ hs => absurd hs (by simp [Stage.sends])
  | raises hwaits =>
    exact h.putSame (left_writeLock ..) (Level.left ..) (waits_holds hwaits).symm
      fun _ hs => absurd hs (by simp [Stage.sends])
  | admits hstage hcancelled hfinalizing hrefuses =>
    refine h.putSame rfl (Level.refl _) ?_ fun _ _ => ready_of_refuses hrefuses
    rw [hstage]
    split
    · rfl
    · rfl
  | credits hstage hcancelled =>
    refine h.putSame rfl (Level.refl _) (by rw [hstage]; rfl) fun hwork _ => h.closing n hwork ?_
    rw [hstage]
    rfl
  | @writes offset s' hstage hcancelled hlock hwork hbegin =>
    obtain ⟨hended, hclosed, unaccepted, lastInput, hs'⟩ := beginWrite_eq hbegin
    obtain ⟨text, heq⟩ := sending_eq s' (w.tasks n).work
    rw [heq, hs']
    have hsends : (w.tasks n).stage.sends = true := by
      rw [hstage]
      rfl
    have hwrites := ha.tasks n hsends
    have hcall := hopens.call_of_writes hwrites hended
    refine h.takes hlock (x := .task n) rfl (put_holds_self ..)
      (fun who hwho => put_holds_of_ne _ _ _ hwho) rfl (put_tasks_sends rfl fun _ => hsends) hwrites
      rfl rfl (fun hc => ?_) rfl hcall (Nat.succ_pos _)
    exact absurd (hclosed.symm.trans hc) (by simp)
  | halfCloses hstage hlock hwork =>
    have hsends : (w.tasks n).stage.sends = true := by
      rw [hstage]
      rfl
    have hready := h.closing n hwork hsends
    have hnot := hopens.call_of_ready hready
    have hcall : w.session.call.isSome := Option.isSome_iff_ne_none.2 fun hnone => hnot (.inl hnone)
    exact h.takes hlock (x := .task n) rfl (put_holds_self ..)
      (fun who hwho => put_holds_of_ne _ _ _ hwho) rfl (put_tasks_sends rfl fun _ => hsends)
      (.inl hready) rfl rfl (fun _ => hready) rfl hcall (h.opened hcall)
  | awaitsEnd hstage hwork =>
    exact h.putSame rfl (Level.refl _) (by rw [hstage]; rfl)
      fun _ hs => absurd hs (by simp [Stage.sends])
  | @wroteAudio sequence bytes samples hstage hwork =>
    have hwrote : Level w.session { w.session.endWrite with
        samplesSent := w.session.samplesSent + samples
        shortFrame := World.isShort w.session samples } := ⟨rfl, rfl, rfl, id, id⟩
    exact h.putGives (by rw [hstage]; rfl) (left_writeLock ..) (hwrote.trans (Level.left _ n true))
      rfl rfl
  | wroteFinalize hstage hwork =>
    exact h.putGives (by rw [hstage]; rfl) rfl ⟨rfl, rfl, rfl, id, id⟩ rfl rfl
  | wroteCancel hstage hwork =>
    exact h.putGives (by rw [hstage]; rfl) rfl ⟨rfl, rfl, rfl, id, id⟩ rfl rfl
  | wroteText hstage haudio hfinalize =>
    exact h.putGives (by rw [hstage]; rfl) (left_writeLock ..)
      ((Level.endWrite _).trans (Level.left _ n true)) rfl rfl
  | fails hstage =>
    exact h.putSame rfl ⟨rfl, rfl, rfl, id, id⟩ (by rw [hstage]; rfl)
      fun _ hs => absurd hs (by simp [Stage.sends])
  | closed hstage => exact h.putGives (by rw [hstage]; rfl) rfl (Level.endWrite _) rfl rfl
  | endsFailed hstage hover =>
    exact h.putGives (by rw [hstage]; rfl) (left_writeLock ..)
      ((Level.endWrite _).trans (Level.left _ n false)) rfl rfl
  | endsCancel hstage hwork => exact h.putGives (by rw [hstage]; rfl) rfl (Level.endWrite _) rfl rfl
  | answered hstage hanswer =>
    exact h.putSame (left_writeLock ..) (Level.left ..) (by rw [hstage]; rfl)
      fun _ hs => absurd hs (by simp [Stage.sends])
  | @ended returns hstage =>
    refine h.putSame (left_writeLock ..) (Level.left ..) ?_ fun _ hs => ?_
    · rw [hstage]
      split
      · rfl
      · rfl
    · dsimp only at hs
      split at hs
      · exact absurd hs (by simp [Stage.sends])
      · exact absurd hs (by simp [Stage.sends])
  | leaves hsame hcancelled =>
    exact h.putSame hsame.writeLock hsame.level rfl
      fun hwork hs => hsame.readied (h.closing n hwork hs)

theorem Held.connects (h : Held w) (hc : Connects w w') : Held w' := by
  have hnot : ¬Writes w.session := by
    rintro (hr | hcancelling)
    · rw [hc.unready] at hr
      exact absurd hr (by simp)
    · rw [hc.uncancelled] at hcancelling
      exact absurd hcancelling (by simp)
  have hready : ¬w.session.ready.isSome := fun hr => hnot (.inl hr)
  refine ⟨holder_takes h hc.unlocked hc.writeLock ?_ fun who hwho => ?_, ?_, fun n hn => ?_,
    fun n hwork hsends => ?_, fun hhalf => ?_, fun hnone => ?_, fun _ => ?_⟩
  · show w'.begins.holds = true
    rw [hc.begins]
    rfl
  · rcases who with - | - | n
    · exact absurd rfl hwho
    · show w'.pinger.holds = w.pinger.holds
      rw [hc.pinger]
    · show (w'.tasks n).stage.holds = (w.tasks n).stage.holds
      rw [hc.tasks]
  · rw [hc.begins]
    exact nofun
  · rw [hc.tasks] at hn
    exact absurd (h.writes n hn) hnot
  · rw [hc.tasks] at hwork hsends
    exact absurd (h.closing n hwork hsends) hready
  · rw [hc.halfClosed] at hhalf
    exact absurd (h.halfClosed hhalf) hready
  · rw [hc.call] at hnone
    exact absurd hnone (by simp)
  · rw [hc.sent]
    exact Nat.succ_pos _

theorem Held.openEnds (h : Held w) (he : OpenEnds w w') : Held w' := by
  refine ⟨holder_gives h (x := .opener) he.held ?_ he.begins fun who hwho => ?_, he.begun, ?_, ?_, ?_,
    ?_, ?_⟩
  · rw [he.session]
    rfl
  · rcases who with - | - | n
    · exact absurd rfl hwho
    · show w'.pinger.holds = w.pinger.holds
      rw [he.pinger]
    · show (w'.tasks n).stage.holds = (w.tasks n).stage.holds
      rw [he.tasks]
  · rw [he.tasks, he.session]
    exact h.writes
  · rw [he.tasks, he.session]
    exact h.closing
  · rw [he.session]
    exact h.halfClosed
  · rw [he.session]
    exact h.unopened
  · rw [he.session]
    exact h.opened

theorem Held.goes (h : Held w) (hg : Goes w w') : Held w' := by
  rcases hg with hr | ⟨w₁, hr, hc⟩
  · exact h.rests hr
  · exact (h.rests hr).connects hc

theorem Held.answers (h : Held w) {sequence : ℕ} (ha : Answers w w' sequence) : Held w' := by
  obtain ⟨s, hs, heq⟩ := ha.session
  have hrests : Rests w { w with session := s } := ⟨hs, rfl, rfl, rfl, id⟩
  have hheld := h.rests hrests
  have hholds : ∀ who, w'.holds who = w.holds who := by
    intro who
    rcases who with - | - | n
    · show w'.begins.holds = w.begins.holds
      rw [ha.begins]
    · show w'.pinger.holds = w.pinger.holds
      rw [ha.pinger]
    · show (w'.tasks n).stage.holds = (w.tasks n).stage.holds
      rw [ha.tasks]
  refine ⟨holder_same h ?_ hholds, ?_, ?_, ?_, ?_, ?_, ?_⟩
  · rw [heq]
    exact hs.writeLock
  · rw [ha.begins]
    exact h.begun
  · rw [ha.tasks, heq]
    exact hheld.writes
  · rw [ha.tasks, heq]
    exact hheld.closing
  · rw [heq]
    exact hheld.halfClosed
  · rw [heq]
    exact hheld.unopened
  · rw [heq]
    exact hheld.opened

theorem Held.pingWrites (h : Held w) (hopens : Opens w) (ha : Armed w) (hp : PingWrites w w') :
    Held w' := by
  obtain ⟨s, hbegin, rfl⟩ := hp.writes
  obtain ⟨hended, hclosed, unaccepted, lastInput, rfl⟩ := beginWrite_eq hbegin
  have hready := ha.pinger (by rw [hp.stage]; exact nofun)
  have hcall := hopens.call_of_writes (.inl hready) hended
  refine h.takes hp.unlocked (x := .pinger) rfl rfl (fun who hwho => ?_) rfl (fun n => ⟨rfl, id⟩)
    (.inl hready) rfl rfl (fun hc => ?_) rfl hcall (Nat.succ_pos _)
  · rcases who with - | - | n
    · rfl
    · exact absurd rfl hwho
    · rfl
  · exact absurd (hclosed.symm.trans hc) (by simp)

theorem Held.pingEnds (h : Held w) (hp : PingEnds w w') : Held w' := by
  obtain ⟨stage, hholds, -, rfl⟩ := hp.ends
  refine { h with holder := holder_gives h (x := .pinger) hp.held rfl hholds fun who hwho => ?_ }
  rcases who with - | - | n
  · rfl
  · exact absurd rfl hwho
  · rfl

theorem Held.cancelCalled (h : Held w) (n : ℕ) (hstage : (w.tasks n).stage = .absent) :
    Held (w.cancelCalled n) := by
  have hnone : (w.tasks n).stage.holds = false := by
    rw [hstage]
    rfl
  rcases cancelCalled_cases w n with ⟨stage, heq, hholds⟩ | ⟨s, stage, -, hs, heq, hholds⟩
  · rw [heq]
    exact h.putSame rfl (Level.refl _) (hholds.trans hnone.symm) nofun
  · rw [heq]
    have hmarked : Level w.session { w.session with
        cancelling := true, log := w.session.log ++ [.cancelled] } :=
      ⟨rfl, rfl, rfl, id, fun _ => rfl⟩
    exact h.putSame hs.writeLock (hmarked.trans hs.level) (hholds.trans hnone.symm) nofun

/-- **What a step is to the senders.** -/
inductive Stirs (w : World) : World.Action → World → Prop
  | goes {a : World.Action} {w' : World} : Goes w w' → Stirs w a w'
  | openEnds {a : World.Action} {w' : World} : OpenEnds w w' → Stirs w a w'
  | goesOn {a : World.Action} {w₁ w' : World} : OpenEnds w w₁ → Goes w₁ w' → Stirs w a w'
  | answers {a : World.Action} {w' : World} {sequence : ℕ} : Answers w w' sequence → Stirs w a w'
  | pingWrites {a : World.Action} {w' : World} : PingWrites w w' → Stirs w a w'
  | pingEnds {a : World.Action} {w' : World} : PingEnds w w' → Stirs w a w'
  | acts {a : World.Action} {w' : World} {n : ℕ} : ActsOf n w w' → Stirs w a w'
  | cancels {n : ℕ} : (w.tasks n).stage = .absent → Stirs w (.called n .cancel) (w.cancelCalled n)

theorem stirs_step {a : World.Action} (h : Opens w) (ha : Armed w) (hheld : Held w)
    (hstep : w.step a = some w') : Stirs w a w' := by
  cases a with
  | openCalled => exact .goes (.inl (rests_openCalled h hstep))
  | beginFresh found channel => exact .goes (goes_beginFresh h ha hheld hstep)
  | openLocked channel =>
    -- The Open never waits for the lock.
    change w.openLocked channel = some w' at hstep
    unfold World.openLocked at hstep
    rw [if_pos (.inl hheld.begun)] at hstep
    exact absurd hstep (by simp)
  | openAttemptFailed => exact .goes (.inl (rests_openAttemptFailed hstep))
  | openWritten ok =>
    rcases openWritten_cases hstep with hr | he
    · exact .goes (.inl hr)
    · exact .openEnds he
  | openEnding channel =>
    obtain ⟨w₁, he, hg⟩ := openEnding_cases h ha (fun he => hheld.openEnds he) hstep
    exact .goesOn he hg
  | openAnswered channel => exact .goes (goes_openAnswered h ha hheld hstep)
  | follow found channel => exact .goes (goes_follow h ha hheld hstep)
  | beginUnwinds => exact .goes (.inl (rests_beginUnwinds hstep))
  | openStep e => exact .goes (.inl (rests_openStep hstep))
  | read event =>
    rcases read_cases ha hstep with hr | ⟨sequence, hanswers⟩
    · exact .goes (.inl hr)
    · exact .answers hanswers
  | readEnds error => exact .goes (.inl (rests_readEnds hstep))
  | concludes status => exact .goes (.inl (rests_concludes hstep))
  | ping written =>
    rcases ping_cases hstep with hr | hp | hp
    · exact .goes (.inl hr)
    · exact .pingWrites hp
    · exact .pingEnds hp
  | called n work =>
    by_cases hwork : work = .cancel
    · subst hwork
      change w.called n .cancel = some w' at hstep
      unfold World.called at hstep
      split at hstep
      · exact absurd hstep (by simp)
      rename_i hstage
      obtain rfl := Option.some.inj hstep
      exact .cancels (not_not.1 hstage)
    · exact .acts (acts_called hwork hstep)
  | entered n => exact .acts (acts_entered hstep)
  | answered n => exact .acts (acts_answered hstep)
  | credited n => exact .acts (acts_credited hstep)
  | locked n => exact .acts (acts_locked hstep)
  | written n ok => exact .acts (acts_written hstep)
  | woken n => exact .acts (acts_woken hstep)
  | left n timeout => exact .acts (acts_left hstep)
  | unwinds n => exact .acts (acts_unwinds hstep)
  | shut =>
    obtain rfl := Option.some.inj hstep
    exact .goes (.inl (rests_stage (SameSend.shut _) rfl id))

theorem Held.stirs {a : World.Action} (hheld : Held w) (h : Opens w) (ha : Armed w)
    (hs : Stirs w a w') : Held w' := by
  cases hs with
  | goes hg => exact hheld.goes hg
  | openEnds he => exact hheld.openEnds he
  | goesOn he hg => exact (hheld.openEnds he).goes hg
  | answers hanswers => exact hheld.answers hanswers
  | pingWrites hp => exact hheld.pingWrites h ha hp
  | pingEnds hp => exact hheld.pingEnds hp
  | acts hacts => exact hheld.acts h ha hacts
  | cancels hstage => exact hheld.cancelCalled _ hstage

theorem held_fresh (targets sendsSegments : Bool) (sampleRateHz : ℕ) (target : StreamTarget) :
    Held (World.fresh targets sendsSegments sampleRateHz target) := by
  refine ⟨fun who => ⟨nofun, fun hholds => ?_⟩, nofun, nofun, nofun, nofun, fun _ => rfl, nofun⟩
  rcases who with - | - | n
  · exact absurd hholds Bool.false_ne_true
  · exact absurd hholds Bool.false_ne_true
  · exact absurd hholds Bool.false_ne_true

/-- What holds of a session in every run. -/
structure Sound (w : World) : Prop where
  opens : Opens w
  armed : Armed w
  held : Held w

theorem Sound.step {a : World.Action} (h : Sound w) (hstep : w.step a = some w') : Sound w' :=
  ⟨(keeps_step h.opens h.armed hstep).opens, (keeps_step h.opens h.armed hstep).armed,
    h.held.stirs h.opens h.armed (stirs_step h.opens h.armed h.held hstep)⟩

theorem sound_fresh (targets sendsSegments : Bool) (sampleRateHz : ℕ) (target : StreamTarget) :
    Sound (World.fresh targets sendsSegments sampleRateHz target) :=
  ⟨opens_fresh .., armed_fresh .., held_fresh ..⟩

/-! ## The log -/

theorem left_log (s : Session) (n : ℕ) (returns : Bool) :
    (s.left n returns).log = s.log ++ [if returns then .returned n else .raised n] := by
  unfold Session.left
  split
  · rfl
  · rfl

theorem Goes.log (h : Goes w w') : ∃ more, w'.session.log = w.session.log ++ more := by
  rcases h with hr | ⟨w₁, hr, hc⟩
  · obtain ⟨more, hlog, -⟩ := hr.session.log
    exact ⟨more, hlog⟩
  · obtain ⟨more, hlog, -⟩ := hr.session.log
    rw [hc.log, hlog, List.append_assoc]
    exact ⟨_, rfl⟩

theorem ActsOf.log {n : ℕ} (h : ActsOf n w w') :
    ∃ more, w'.session.log = w.session.log ++ more := by
  obtain ⟨s, t, hact, rfl⟩ := h
  show ∃ more, s.log = w.session.log ++ more
  have hself : ∃ more, w.session.log = w.session.log ++ more := ⟨[], (List.append_nil _).symm⟩
  cases hact with
  | @writes offset s' hstage hcancelled hlock hwork hbegin =>
    obtain ⟨-, -, unaccepted, lastInput, hs'⟩ := beginWrite_eq hbegin
    obtain ⟨text, heq⟩ := sending_eq s' (w.tasks n).work
    rw [heq, hs']
    exact ⟨_, rfl⟩
  | halfCloses hstage hlock hwork => exact ⟨_, rfl⟩
  | leaves hsame hcancelled =>
    obtain ⟨more, hlog, -⟩ := hsame.log
    exact ⟨more, hlog⟩
  | unready hstage => exact ⟨_, left_log ..⟩
  | shutOut hstage hgate => exact ⟨_, left_log ..⟩
  | raises hwaits => exact ⟨_, left_log ..⟩
  | wroteAudio hstage hwork => exact ⟨_, left_log ..⟩
  | wroteText hstage haudio hfinalize => exact ⟨_, left_log ..⟩
  | endsFailed hstage hover => exact ⟨_, left_log ..⟩
  | answered hstage hanswer => exact ⟨_, left_log ..⟩
  | ended hstage => exact ⟨_, left_log ..⟩
  | _ => exact hself

/-- **The log only grows.** -/
theorem Stirs.log {a : World.Action} (h : Stirs w a w') :
    ∃ more, w'.session.log = w.session.log ++ more := by
  cases h with
  | goes hg => exact hg.log
  | openEnds he =>
    rw [he.session]
    exact ⟨[], (List.append_nil _).symm⟩
  | goesOn he hg =>
    obtain ⟨more, hlog⟩ := hg.log
    rw [he.session] at hlog
    exact ⟨more, hlog⟩
  | answers hanswers =>
    obtain ⟨s, hs, heq⟩ := hanswers.session
    obtain ⟨more, hlog, -⟩ := hs.log
    rw [heq]
    show ∃ more, s.log ++ _ = _
    rw [hlog, List.append_assoc]
    exact ⟨_, rfl⟩
  | pingWrites hp =>
    obtain ⟨s, hbegin, rfl⟩ := hp.writes
    obtain ⟨-, -, unaccepted, lastInput, rfl⟩ := beginWrite_eq hbegin
    exact ⟨_, rfl⟩
  | pingEnds hp =>
    obtain ⟨stage, -, -, rfl⟩ := hp.ends
    exact ⟨[], (List.append_nil _).symm⟩
  | acts hacts => exact hacts.log
  | @cancels n hstage =>
    rcases cancelCalled_cases w n with ⟨stage, heq, -⟩ | ⟨s, stage, -, hs, heq, -⟩
    · rw [heq]
      exact ⟨[], (List.append_nil _).symm⟩
    · obtain ⟨more, hlog, -⟩ := hs.log
      rw [heq]
      show ∃ more, s.log = _
      rw [hlog, List.append_assoc]
      exact ⟨_, rfl⟩

end Sdk

end Tensorplate
