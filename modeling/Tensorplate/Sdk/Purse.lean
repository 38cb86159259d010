import Tensorplate.Sdk.Gate

/-!
# The client's account of its credit

The credit last reported, the inputs no Accepted covers and the two
sequences `_take_accepted` compares change in two places: an event is read,
or an input is written. Every other step leaves them alone, and writes at
most an event that is no input. An input gets to its write past the gate,
past Ready and past `_fits`.
-/

namespace Tensorplate

namespace Sdk

open Lib

variable {s s' : Session} {w w' : World}

/-- The fields `_fits` and `_take_accepted` read, and whether there is a
Ready. -/
structure Purse where
  ready : Option Ready
  credit : InputCredit
  unaccepted : List (ℕ × ℕ)
  lastInput : ℕ
  accepted : ℕ
  sendsSegments : Bool

/-- The account of a session. -/
def Session.purse (s : Session) : Purse :=
  ⟨s.ready, s.credit, s.unaccepted, s.lastInput, s.accepted, s.sendsSegments⟩

/-- The account after the event of a sequence is written, with its charge. -/
def Purse.spend (p : Purse) (sequence : ℕ) : Option ℕ → Purse
  | some size => { p with
      unaccepted := p.unaccepted ++ [(sequence, size)], lastInput := sequence }
  | none => p

/-! ## What leaves it alone -/

@[simp] theorem purse_note (s : Session) (x : Happened) : (s.note x).purse = s.purse := rfl

@[simp] theorem purse_endWrite (s : Session) : s.endWrite.purse = s.purse := rfl

@[simp] theorem purse_settle (s : Session) (failure : Option SpeechError) :
    (s.settle failure).purse = s.purse := rfl

@[simp] theorem purse_connected (s : Session) : s.connected.purse = s.purse := rfl

@[simp] theorem purse_abort (s : Session) (error : SpeechError) :
    (s.abort error).purse = s.purse := by
  unfold Session.abort
  dsimp only
  split
  · rfl
  · rfl

@[simp] theorem purse_shut (s : Session) : s.shut.purse = s.purse := by
  unfold Session.shut
  dsimp only
  split_ifs
  · rfl
  · rfl
  · rfl

@[simp] theorem purse_conclude (s : Session) (status : StatusCode) :
    (s.conclude status).purse = s.purse := by
  rw [conclude_eq]
  split
  · rfl
  · rfl

@[simp] theorem purse_openDone (s : Session) : (World.openDone s).purse = s.purse := by
  unfold World.openDone
  dsimp only
  split
  · rfl
  · rfl

@[simp] theorem purse_left (s : Session) (n : ℕ) (returns : Bool) :
    (s.left n returns).purse = s.purse := by
  unfold Session.left
  split
  · rfl
  · rfl

@[simp] theorem purse_sending (s : Session) (work : Work) :
    (World.sending s work).purse = s.purse := by
  unfold World.sending
  split
  · rfl
  · rfl

/-- **An event is written**: it is in the account where it has a charge. -/
theorem purse_beginWrite {who : Writer} {body : ClientBody} {charge : Option ℕ}
    (h : s.beginWrite who body charge = some s') :
    s'.sent = s.sent + 1 ∧ s'.purse = s.purse.spend (s.sent + 1) charge := by
  unfold Session.beginWrite at h
  split at h
  · exact absurd h (by simp)
  obtain rfl := Option.some.inj h
  rcases charge with - | size
  · dsimp only
    split
    · exact ⟨rfl, rfl⟩
    · exact ⟨rfl, rfl⟩
  · dsimp only
    split
    · exact ⟨rfl, rfl⟩
    · exact ⟨rfl, rfl⟩

/-- What goes over the wire, or makes another one. -/
def Happened.crosses : Happened → Bool
  | .connected _ => true
  | .wrote .. => true
  | _ => false

/-- **Nothing was written**, and the account is the same. -/
structure Quiet (s s' : Session) : Prop where
  purse : s'.purse = s.purse
  sent : s'.sent = s.sent
  log : ∃ more, s'.log = s.log ++ more ∧ ∀ x ∈ more, x.crosses = false

theorem Quiet.refl (s : Session) : Quiet s s :=
  ⟨rfl, rfl, [], (List.append_nil _).symm, fun _ h => absurd h List.not_mem_nil⟩

theorem Quiet.trans {s₁ : Session} (h₁ : Quiet s s₁) (h₂ : Quiet s₁ s') : Quiet s s' := by
  obtain ⟨more₁, hlog₁, hq₁⟩ := h₁.log
  obtain ⟨more₂, hlog₂, hq₂⟩ := h₂.log
  refine ⟨h₂.purse.trans h₁.purse, h₂.sent.trans h₁.sent, more₁ ++ more₂, ?_, fun x hx => ?_⟩
  · rw [hlog₂, hlog₁, List.append_assoc]
  · rcases List.mem_append.1 hx with hx | hx
    · exact hq₁ x hx
    · exact hq₂ x hx

/-- A change of fields that neither the account nor the wire sees. -/
theorem quiet_of (hpurse : s'.purse = s.purse) (hsent : s'.sent = s.sent) (hlog : s'.log = s.log) :
    Quiet s s' :=
  ⟨hpurse, hsent, [], hlog.trans (List.append_nil _).symm, fun _ h => absurd h List.not_mem_nil⟩

/-- The same with an entry of the log that is not on the wire either. -/
theorem quiet_tells {x : Happened} (hpurse : s'.purse = s.purse) (hsent : s'.sent = s.sent)
    (hlog : s'.log = s.log ++ [x]) (hx : x.crosses = false) : Quiet s s' := by
  refine ⟨hpurse, hsent, [x], hlog, fun y hy => ?_⟩
  rw [List.mem_singleton.1 hy]
  exact hx

theorem Quiet.left (h : Quiet s s') (n : ℕ) (returns : Bool) : Quiet s (s'.left n returns) := by
  have hx : (if returns then Happened.returned n else .raised n).crosses = false := by
    split
    · rfl
    · rfl
  have hsent : (s'.left n returns).sent = s'.sent := by
    unfold Session.left
    split
    · rfl
    · rfl
  exact h.trans (quiet_tells (purse_left s' n returns) hsent (left_log s' n returns) hx)

/-- The senders do not see the difference, and the account is the same. -/
theorem SameSend.isQuiet (h : SameSend s s') (hpurse : s'.purse = s.purse) : Quiet s s' := by
  obtain ⟨more, hlog, hstill⟩ := h.log
  refine ⟨hpurse, h.sent, more, hlog, fun x hx => ?_⟩
  have hs := hstill x hx
  cases x with
  | connected call => exact absurd hs id
  | wrote call sequence body => exact absurd hs id
  | _ => rfl

/-! ## Steps -/

theorem purse_connectOpen (w : World) : w.connectOpen.session.purse = w.session.purse := by
  unfold World.connectOpen
  dsimp only
  split
  · rfl
  · split
    · rename_i s hbegin
      exact (purse_beginWrite hbegin).2
    · rfl

theorem purse_connectAgain (w : World) (channel : Bool) :
    (w.connectAgain channel).session.purse = w.session.purse := by
  unfold World.connectAgain
  split
  · exact purse_shut _
  · exact purse_connectOpen _

theorem purse_beginRaised (w : World) (channel : Bool) :
    (w.beginRaised channel).session.purse = w.session.purse := by
  unfold World.beginRaised
  split
  · rfl
  · split
    · rfl
    · exact purse_connectAgain w channel

theorem purse_openRaises (w : World) : w.openRaises.session.purse = w.session.purse := by
  unfold World.openRaises
  dsimp only
  rw [purse_note, purse_openDone]
  split
  · exact purse_abort _ _
  · rfl

/-- A step of the open leaves the account alone. -/
theorem purse_beginFresh {found : Except String StreamTarget} {channel : Bool}
    (h : w.beginFresh found channel = some w') : w'.session.purse = w.session.purse := by
  unfold World.beginFresh at h
  split at h
  · exact absurd h (by simp)
  dsimp only at h
  split at h
  · rename_i w₁ hread
    obtain rfl := Option.some.inj h
    split at hread
    · split at hread
      · obtain rfl := Except.error.inj hread
        rfl
      · exact absurd hread (by simp)
    · exact absurd hread (by simp)
  · rename_i s hread
    have hs : s.purse = w.session.purse := by
      split at hread
      · split at hread
        · exact absurd hread (by simp)
        · obtain rfl := Except.ok.inj hread
          split
          · rfl
          · rfl
      · obtain rfl := Except.ok.inj hread
        rfl
    rw [← hs]
    split_ifs at h
    · obtain rfl := Option.some.inj h
      rfl
    · obtain rfl := Option.some.inj h
      exact purse_shut s
    · obtain rfl := Option.some.inj h
      exact purse_connectOpen _

theorem purse_follow {found : Except String StreamTarget} {channel : Bool}
    (h : w.follow found channel = some w') : w'.session.purse = w.session.purse := by
  unfold World.follow at h
  split at h
  · exact absurd h (by simp)
  split at h
  · obtain rfl := Option.some.inj h
    rfl
  · dsimp only at h
    split_ifs at h
    · obtain rfl := Option.some.inj h
      rfl
    · obtain rfl := Option.some.inj h
      rfl
    · obtain rfl := Option.some.inj h
      exact purse_connectAgain _ channel

theorem purse_openStep {e : World.OpenEnd} (h : w.openStep e = some w') :
    w'.session.purse = w.session.purse := by
  have hleave : w.leaveBegin.session = w.session := by
    unfold World.leaveBegin
    split
    · rfl
    · rfl
  unfold World.openStep at h
  split at h
  · split_ifs at h
    · obtain rfl := Option.some.inj h
      exact purse_openDone _
    · obtain rfl := Option.some.inj h
      exact purse_openRaises w
  · split_ifs at h
    obtain rfl := Option.some.inj h
    dsimp only
    rw [purse_abort, hleave]
  · split_ifs at h
    obtain rfl := Option.some.inj h
    exact purse_openRaises w
  · split_ifs at h
    · obtain rfl := Option.some.inj h
      rw [purse_openRaises, hleave]
    · obtain rfl := Option.some.inj h
      exact purse_openRaises w

theorem purse_ping {written : Bool} (h : w.ping written = some w') :
    w'.session.purse = w.session.purse := by
  unfold World.ping at h
  split at h
  · split_ifs at h
    · obtain rfl := Option.some.inj h
      rfl
    · obtain rfl := Option.some.inj h
      rfl
  · split_ifs at h
    · obtain rfl := Option.some.inj h
      rfl
    · split at h
      · rename_i s hbegin
        obtain rfl := Option.some.inj h
        exact (purse_beginWrite hbegin).2
      · obtain rfl := Option.some.inj h
        rfl
  · split at h
    · obtain rfl := Option.some.inj h
      rfl
    · obtain rfl := Option.some.inj h
      rfl
  · split at h
    · obtain rfl := Option.some.inj h
      rfl
    · exact absurd h (by simp)
  · exact absurd h (by simp)

/-! ## The caller's tasks -/

/-- What an input that `_fits` has admitted, and that is not written yet,
takes of the credit. -/
def Task.cleared (t : Task) : Option ℕ :=
  match t.stage with
  | .lock _ => World.chargeOf t.work
  | _ => none

/-- **A step that writes nothing and clears no input.** -/
structure Frugal (w w' : World) : Prop where
  session : Quiet w.session w'.session
  work : ∀ n, (w'.tasks n).work = (w.tasks n).work
  cleared : ∀ n b, (w'.tasks n).cleared = some b → (w.tasks n).cleared = some b

theorem Frugal.quiet (hs : Quiet w.session w'.session) (htasks : w'.tasks = w.tasks) :
    Frugal w w' := ⟨hs, fun n => by rw [htasks], fun n b hb => by rwa [htasks] at hb⟩

theorem Frugal.trans {w₁ : World} (h₁ : Frugal w w₁) (h₂ : Frugal w₁ w') : Frugal w w' :=
  ⟨h₁.session.trans h₂.session, fun n => (h₂.work n).trans (h₁.work n),
    fun n b hb => h₁.cleared n b (h₂.cleared n b hb)⟩

theorem frugal_rests (h : Rests w w') (hpurse : w'.session.purse = w.session.purse) :
    Frugal w w' := Frugal.quiet (h.session.isQuiet hpurse) h.tasks

/-- The account of a task is replaced by one that is not cleared, or no more
than it was. -/
theorem cleared_put {s : Session} {n : ℕ} {t : Task}
    (ht : ∀ b, t.cleared = some b → (w.tasks n).cleared = some b) (m b : ℕ)
    (hb : ((w.put s n t).tasks m).cleared = some b) : (w.tasks m).cleared = some b := by
  unfold World.put at hb
  dsimp only at hb
  by_cases hmn : m = n
  · subst hmn
    rw [Function.update_self] at hb
    exact ht b hb
  · rwa [Function.update_of_ne hmn] at hb

theorem work_put {s : Session} {n : ℕ} {t : Task} (ht : t.work = (w.tasks n).work) (m : ℕ) :
    ((w.put s n t).tasks m).work = (w.tasks m).work := by
  unfold World.put
  dsimp only
  by_cases hmn : m = n
  · subst hmn
    rw [Function.update_self]
    exact ht
  · rw [Function.update_of_ne hmn]

theorem frugal_put {s : Session} {n : ℕ} {t : Task} (hs : Quiet w.session s)
    (hwork : t.work = (w.tasks n).work)
    (ht : ∀ b, t.cleared = some b → (w.tasks n).cleared = some b) : Frugal w (w.put s n t) :=
  ⟨hs, work_put hwork, cleared_put ht⟩

theorem cleared_of_work {t : Task} (h : World.chargeOf t.work = none) : t.cleared = none := by
  unfold Task.cleared
  split
  · exact h
  · rfl

/-- A task at a stage other than a lock is not cleared. -/
theorem frugal_stage {s : Session} {n : ℕ} {stage : Stage} (hs : Quiet w.session s)
    (hstage : ∀ work, Task.cleared { work := work, stage := stage } = none) :
    Frugal w ((w.withSession s).stage n stage) := by
  rw [stage_put]
  refine frugal_put hs rfl fun b hb => ?_
  have hnone : Task.cleared { w.tasks n with stage := stage } = none := hstage (w.tasks n).work
  rw [hnone] at hb
  exact absurd hb (by simp)

/-- A task that has nothing to charge is never cleared. -/
theorem frugal_unpaid {s : Session} {n : ℕ} {stage : Stage} (hs : Quiet w.session s)
    (hcharge : World.chargeOf (w.tasks n).work = none) :
    Frugal w ((w.withSession s).stage n stage) := by
  rw [stage_put]
  refine frugal_put hs rfl fun b hb => ?_
  have hnone : Task.cleared { w.tasks n with stage := stage } = none := cleared_of_work hcharge
  rw [hnone] at hb
  exact absurd hb (by simp)

theorem frugal_leave {s : Session} {n : ℕ} {returns : Bool} (hs : Quiet w.session s) :
    Frugal w ((w.withSession s).leave n returns) := by
  rw [leave_put]
  refine frugal_put (hs.left n returns) rfl fun b hb => ?_
  rcases returns with - | -
  · exact absurd hb (by simp [Task.cleared])
  · exact absurd hb (by simp [Task.cleared])

theorem frugal_entered {n : ℕ} (h : w.entered n = some w') : Frugal w w' := by
  unfold World.entered at h
  dsimp only at h
  split_ifs at h
  · obtain rfl := Option.some.inj h
    exact frugal_leave (quiet_of rfl rfl rfl)
  · obtain rfl := Option.some.inj h
    exact frugal_stage (quiet_of rfl rfl rfl) fun _ => rfl

theorem frugal_answered {n : ℕ} (h : w.answered n = some w') : Frugal w w' := by
  unfold World.answered at h
  split_ifs at h with _ _ _ _ hfinalize
  · obtain rfl := Option.some.inj h
    exact frugal_leave (Quiet.refl w.session)
  · obtain rfl := Option.some.inj h
    exact frugal_leave (Quiet.refl w.session)
  · obtain rfl := Option.some.inj h
    exact frugal_unpaid (Quiet.refl w.session) (by rw [hfinalize]; rfl)
  · obtain rfl := Option.some.inj h
    exact frugal_stage (Quiet.refl w.session) fun _ => rfl

theorem frugal_written {n : ℕ} {ok : Bool} (h : w.written n ok = some w') : Frugal w w' := by
  unfold World.written at h
  split at h
  · split at h
    · obtain rfl := Option.some.inj h
      unfold World.afterWrite
      dsimp only
      split
      · exact frugal_leave (quiet_of rfl rfl rfl)
      · exact frugal_stage (quiet_of rfl rfl rfl) fun _ => rfl
      · exact frugal_stage (quiet_of rfl rfl rfl) fun _ => rfl
      · exact frugal_leave (quiet_of rfl rfl rfl)
    · obtain rfl := Option.some.inj h
      exact frugal_stage (quiet_of rfl rfl rfl) fun _ => rfl
  · obtain rfl := Option.some.inj h
    exact frugal_stage (quiet_of rfl rfl rfl) fun _ => rfl
  · exact absurd h (by simp)

theorem frugal_woken {n : ℕ} (h : w.woken n = some w') : Frugal w w' := by
  unfold World.woken at h
  split at h
  · exact absurd h (by simp)
  split at h
  · split at h
    · exact absurd h (by simp)
    · obtain rfl := Option.some.inj h
      split
      · exact frugal_stage (quiet_of rfl rfl rfl) fun _ => rfl
      · exact frugal_leave (quiet_of rfl rfl rfl)
  · split_ifs at h
    · obtain rfl := Option.some.inj h
      exact frugal_leave (Quiet.refl w.session)
    · obtain rfl := Option.some.inj h
      exact frugal_leave (Quiet.refl w.session)
  · split_ifs at h
    obtain rfl := Option.some.inj h
    exact frugal_leave (Quiet.refl w.session)
  · exact absurd h (by simp)

theorem frugal_unwinds {n : ℕ} (h : w.unwinds n = some w') : Frugal w w' := by
  unfold World.unwinds at h
  split_ifs at h
  obtain rfl := Option.some.inj h
  exact frugal_leave (Quiet.refl w.session)

theorem frugal_leaveTask (w : World) (n : ℕ) : Frugal w (w.leaveTask n) := by
  obtain ⟨b, -, heq⟩ := leaveTask_put w n
  rw [heq]
  exact frugal_put (Quiet.refl w.session) rfl fun b hb => hb

theorem frugal_timedOut (w : World) (n : ℕ) : Frugal w (w.timedOut n) := by
  unfold World.timedOut
  split
  · exact frugal_stage (Quiet.refl w.session) fun _ => rfl
  · exact Frugal.quiet (Quiet.refl w.session) rfl
  · split
    · exact Frugal.quiet ((SameSend.abort _ _).isQuiet (purse_abort _ _)) rfl
    · exact Frugal.quiet (Quiet.refl w.session) rfl

theorem frugal_left {n : ℕ} {timeout : Bool} (h : w.left n timeout = some w') : Frugal w w' := by
  unfold World.left at h
  split at h
  · exact absurd h (by simp)
  split at h
  · split at h
    · obtain rfl := Option.some.inj h
      exact frugal_timedOut w n
    · obtain rfl := Option.some.inj h
      exact (frugal_leaveTask w n).trans (frugal_timedOut _ n)
    · obtain rfl := Option.some.inj h
      exact (frugal_leaveTask w n).trans (frugal_timedOut _ n)
    · exact absurd h (by simp)
  · obtain rfl := Option.some.inj h
    exact frugal_leaveTask w n

theorem purse_cancelCalled (w : World) (n : ℕ) :
    (w.cancelCalled n).session.purse = w.session.purse := by
  unfold World.cancelCalled
  dsimp only
  split
  · rfl
  split
  · split
    · rfl
    · rfl
  · show Session.purse (if _ then _ else _) = _
    split
    · rfl
    · rfl

/-- **A call of the caller's.** -/
structure Calls (w : World) (n : ℕ) (work : Work) (w' : World) : Prop where
  session : Quiet w.session w'.session
  work : (w'.tasks n).work = work
  others : ∀ m, m ≠ n → (w'.tasks m).work = (w.tasks m).work
  cleared : ∀ m b, (w'.tasks m).cleared = some b → (w.tasks m).cleared = some b

theorem calls_put {s : Session} {n : ℕ} {t : Task} (hs : Quiet w.session s)
    (ht : t.cleared = none) : Calls w n t.work (w.put s n t) := by
  refine ⟨hs, ?_, fun m hmn => ?_, cleared_put fun b hb => ?_⟩
  · unfold World.put
    dsimp only
    rw [Function.update_self]
  · unfold World.put
    dsimp only
    rw [Function.update_of_ne hmn]
  · rw [ht] at hb
    exact absurd hb (by simp)

theorem calls_cancelCalled (w : World) (n : ℕ) : Calls w n .cancel (w.cancelCalled n) := by
  have hpurse := purse_cancelCalled w n
  rcases cancelCalled_cases w n with ⟨stage, heq, -⟩ | ⟨s, stage, -, hs, heq, -⟩
  · rw [heq]
    exact calls_put (t := { work := .cancel, stage := stage }) (Quiet.refl w.session)
      (cleared_of_work rfl)
  · rw [heq] at hpurse ⊢
    have hmark : Quiet w.session
        { w.session with cancelling := true, log := w.session.log ++ [.cancelled] } :=
      quiet_tells rfl rfl rfl rfl
    exact calls_put (t := { work := .cancel, stage := stage }) (hmark.trans (hs.isQuiet hpurse))
      (cleared_of_work rfl)

theorem calls_called {n : ℕ} {work : Work} (h : w.called n work = some w') :
    Calls w n work w' := by
  unfold World.called at h
  split at h
  · exact absurd h (by simp)
  split at h
  · obtain rfl := Option.some.inj h
    exact calls_cancelCalled w n
  · obtain rfl := Option.some.inj h
    have hlock : Calls w n .close { w with
        tasks := Function.update w.tasks n { work := .close, stage := .lock 0 } } :=
      calls_put (t := { work := .close, stage := .lock 0 }) (Quiet.refl w.session)
        (cleared_of_work rfl)
    dsimp only
    split
    · have hleft : Frugal { w with
          tasks := Function.update w.tasks n { work := .close, stage := .lock 0 } }
          (World.leave { w with
            tasks := Function.update w.tasks n { work := .close, stage := .lock 0 } } n false) :=
        frugal_leave (Quiet.refl w.session)
      exact ⟨hlock.session.trans hleft.session, (hleft.work n).trans hlock.work,
        fun m hmn => (hleft.work m).trans (hlock.others m hmn),
        fun m b hb => hlock.cleared m b (hleft.cleared m b hb)⟩
    · exact hlock
  · obtain rfl := Option.some.inj h
    exact calls_put (t := { work := _, stage := .gate }) (Quiet.refl w.session) rfl

/-! ## The steps that write -/

/-- The body of an input. -/
def ClientBody.isCharged : ClientBody → Bool
  | .audio .. => true
  | .textSegment _ => true
  | _ => false

/-- **A call is made** before Ready, and its Open written. -/
structure Dials (w w' : World) : Prop where
  unready : w.session.ready = none
  purse : w'.session.purse = w.session.purse
  tasks : w'.tasks = w.tasks
  log : ∃ more call sequence, w'.session.log =
    w.session.log ++ (more ++ [.connected call, .wrote call sequence .opening]) ∧
      ∀ x ∈ more, x.crosses = false

/-- **An event that is no input is written.** -/
structure Mails (w w' : World) : Prop where
  work : ∀ n, (w'.tasks n).work = (w.tasks n).work
  purse : w'.session.purse = w.session.purse
  sent : w'.session.sent = w.session.sent + 1
  log : ∃ call body, w'.session.log = w.session.log ++ [.wrote call (w.session.sent + 1) body] ∧
    body.isCharged = false
  cleared : ∀ n b, (w'.tasks n).cleared = some b → (w.tasks n).cleared = some b

/-- **An input is cleared**: `_fits` admits it. -/
structure Clears (w : World) (n b : ℕ) (w' : World) : Prop where
  work : ∀ m, (w'.tasks m).work = (w.tasks m).work
  fits : w.session.fits b = true
  charge : World.chargeOf (w.tasks n).work = some b
  session : w'.session = w.session
  cleared : ∀ m c, (w'.tasks m).cleared = some c →
    (w.tasks m).cleared = some c ∨ (m = n ∧ c = b)

/-- **An input is written.** -/
structure Spends (w : World) (n b : ℕ) (w' : World) : Prop where
  work : ∀ m, (w'.tasks m).work = (w.tasks m).work
  cleared : (w.tasks n).cleared = some b
  sent : w'.session.sent = w.session.sent + 1
  purse : w'.session.purse = w.session.purse.spend (w.session.sent + 1) (some b)
  log : ∃ call body, w'.session.log = w.session.log ++ [.wrote call (w.session.sent + 1) body] ∧
    body.isCharged = true
  others : ∀ m c, (w'.tasks m).cleared = some c → m ≠ n ∧ (w.tasks m).cleared = some c

theorem credited_cases {n : ℕ} (h : w.credited n = some w') :
    Frugal w w' ∨ ∃ b, Clears w n b w' := by
  unfold World.credited at h
  split_ifs at h with _ hfits
  · obtain rfl := Option.some.inj h
    rcases hcharge : World.chargeOf (w.tasks n).work with - | b
    · exact .inl (frugal_unpaid (Quiet.refl w.session) hcharge)
    · right
      rw [hcharge] at hfits
      refine ⟨b, work_put (s := w.session) rfl, hfits, hcharge, rfl, fun m c hc => ?_⟩
      by_cases hmn : m = n
      · subst hmn
        right
        unfold World.stage at hc
        dsimp only at hc
        rw [Function.update_self] at hc
        unfold Task.cleared at hc
        dsimp only at hc
        rw [hcharge] at hc
        exact ⟨rfl, (Option.some.inj hc).symm⟩
      · left
        unfold World.stage at hc
        dsimp only at hc
        rwa [Function.update_of_ne hmn] at hc
  · obtain rfl := Option.some.inj h
    exact .inl (frugal_leave (Quiet.refl w.session))

theorem isCharged_bodyOf (s : Session) (offset : ℕ) (work : Work) :
    (World.bodyOf s offset work).isCharged = (World.chargeOf work).isSome := by
  cases work with
  | _ => rfl

theorem locked_cases {n : ℕ} (h : w.locked n = some w') :
    Frugal w w' ∨ Mails w w' ∨ ∃ b, Spends w n b w' := by
  unfold World.locked at h
  split at h
  swap
  · exact absurd h (by simp)
  rename_i offset hstage
  split at h
  · exact absurd h (by simp)
  split at h
  · split at h
    · obtain rfl := Option.some.inj h
      exact .inl (frugal_stage (Quiet.refl w.session) fun _ => rfl)
    · obtain rfl := Option.some.inj h
      exact .inl (frugal_stage (quiet_tells rfl rfl rfl rfl) fun _ => rfl)
  split at h
  · rename_i s hbegin
    obtain rfl := Option.some.inj h
    obtain ⟨hsent, hpurse⟩ := purse_beginWrite hbegin
    obtain ⟨-, -, unaccepted, lastInput, hs⟩ := beginWrite_eq hbegin
    obtain ⟨text, heq⟩ := sending_eq s (w.tasks n).work
    have hbody := isCharged_bodyOf w.session offset (w.tasks n).work
    have hlog : (World.sending s (w.tasks n).work).log = w.session.log ++
        [.wrote (w.session.call.getD 0) (w.session.sent + 1)
          (World.bodyOf w.session offset (w.tasks n).work)] := by
      rw [heq, hs]
    have hcount : (World.sending s (w.tasks n).work).sent = w.session.sent + 1 := by
      rw [heq]
      exact hsent
    right
    rcases hcharge : World.chargeOf (w.tasks n).work with - | b
    · rw [hcharge] at hpurse hbody
      rw [stage_put]
      refine .inl ⟨work_put rfl, (purse_sending s _).trans hpurse, hcount, ⟨_, _, hlog, hbody⟩, ?_⟩
      exact cleared_put fun b hb => absurd hb (by simp [Task.cleared])
    · rw [hcharge] at hpurse hbody
      rw [stage_put]
      refine .inr ⟨b, work_put rfl, ?_, hcount, (purse_sending s _).trans hpurse,
        ⟨_, _, hlog, hbody⟩, fun m c hc => ?_⟩
      · unfold Task.cleared
        rw [hstage]
        exact hcharge
      · unfold World.put at hc
        dsimp only at hc
        by_cases hmn : m = n
        · subst hmn
          rw [Function.update_self] at hc
          exact absurd hc (by simp [Task.cleared])
        · rw [Function.update_of_ne hmn] at hc
          exact ⟨hmn, hc⟩
  · obtain rfl := Option.some.inj h
    left
    split
    · exact frugal_stage (Quiet.refl w.session) fun _ => rfl
    · exact frugal_leave (Quiet.refl w.session)

theorem ping_spends {written : Bool} (h : w.ping written = some w') :
    Frugal w w' ∨ Mails w w' := by
  have hpurse := purse_ping h
  rcases ping_cases h with hr | hp | hp
  · exact .inl (frugal_rests hr hpurse)
  · obtain ⟨s, hbegin, rfl⟩ := hp.writes
    obtain ⟨-, -, unaccepted, lastInput, rfl⟩ := beginWrite_eq hbegin
    exact .inr ⟨fun _ => rfl, hpurse, rfl, ⟨_, _, rfl, rfl⟩, fun n b hb => hb⟩
  · obtain ⟨stage, -, -, rfl⟩ := hp.ends
    exact .inl (Frugal.quiet (quiet_of rfl rfl rfl) rfl)

/-- A step of the open goes on, or makes a call. -/
theorem goes_spends (h : Goes w w') (hpurse : w'.session.purse = w.session.purse) :
    Frugal w w' ∨ Dials w w' := by
  rcases h with hr | ⟨w₁, hr, hc⟩
  · exact .inl (frugal_rests hr hpurse)
  · right
    obtain ⟨more, hlog, hstill⟩ := hr.session.log
    refine ⟨?_, hpurse, hc.tasks.trans hr.tasks, more, w₁.session.call.getD 0 + 1,
      w'.session.sent, ?_, fun x hx => ?_⟩
    · have hnone : w'.session.purse.ready = none := hc.ready
      rw [hpurse] at hnone
      exact hnone
    · rw [hc.log, hlog, List.append_assoc]
    · have hs := hstill x hx
      cases x with
      | connected call => exact absurd hs id
      | wrote call sequence body => exact absurd hs id
      | _ => rfl

/-- **What a step that reads nothing does to the account and the wire.** -/
inductive Budgets (w : World) : World.Action → World → Prop
  | frugal {a : World.Action} {w' : World} : Frugal w w' → Budgets w a w'
  | calls {n : ℕ} {work : Work} {w' : World} : Calls w n work w' → Budgets w (.called n work) w'
  | dials {a : World.Action} {w' : World} : Dials w w' → Budgets w a w'
  | mails {a : World.Action} {w' : World} : Mails w w' → Budgets w a w'
  | clears {n b : ℕ} {w' : World} : Clears w n b w' → Budgets w (.credited n) w'
  | spends {n b : ℕ} {w' : World} : Spends w n b w' → Budgets w (.locked n) w'

theorem budgets_goes {a : World.Action} (h : Goes w w')
    (hpurse : w'.session.purse = w.session.purse) : Budgets w a w' := by
  rcases goes_spends h hpurse with hf | hd
  · exact .frugal hf
  · exact .dials hd

theorem budgets_step {a : World.Action} (hsound : Sound w) (hread : ∀ event, a ≠ .read event)
    (h : w.step a = some w') : Budgets w a w' := by
  cases a with
  | openCalled =>
    refine .frugal (frugal_rests (rests_openCalled hsound.opens h) ?_)
    change w.openCalled = some w' at h
    unfold World.openCalled at h
    split_ifs at h
    obtain rfl := Option.some.inj h
    rfl
  | beginFresh found channel =>
    exact budgets_goes (goes_beginFresh hsound.opens hsound.armed hsound.held h)
      (purse_beginFresh h)
  | openLocked channel =>
    change w.openLocked channel = some w' at h
    unfold World.openLocked at h
    rw [if_pos (.inl hsound.held.begun)] at h
    exact absurd h (by simp)
  | openAttemptFailed =>
    refine .frugal (frugal_rests (rests_openAttemptFailed h) ?_)
    change w.openAttemptFailed = some w' at h
    unfold World.openAttemptFailed at h
    split_ifs at h
    obtain rfl := Option.some.inj h
    rfl
  | openWritten ok =>
    change w.openWritten ok = some w' at h
    unfold World.openWritten at h
    split_ifs at h
    · obtain rfl := Option.some.inj h
      exact .frugal (Frugal.quiet (quiet_of rfl rfl rfl) rfl)
    · obtain rfl := Option.some.inj h
      exact .frugal (Frugal.quiet (quiet_tells rfl rfl rfl rfl) rfl)
  | openEnding channel =>
    obtain ⟨w₁, he, hg⟩ := openEnding_cases hsound.opens hsound.armed
      (fun he => hsound.held.openEnds he) h
    have hends : Frugal w w₁ := Frugal.quiet (by rw [he.session]; exact quiet_of rfl rfl rfl) he.tasks
    have hpurse : w'.session.purse = w₁.session.purse := by
      change w.openEnding channel = some w' at h
      unfold World.openEnding at h
      split_ifs at h
      obtain rfl := Option.some.inj h
      rw [he.session]
      exact purse_beginRaised _ channel
    rcases goes_spends hg hpurse with hf | hd
    · exact .frugal (hends.trans hf)
    · obtain ⟨more₁, hlog₁, hquiet₁⟩ := hends.session.log
      obtain ⟨more, call, sequence, hlog, hquiet⟩ := hd.log
      refine .dials ⟨?_, hd.purse.trans hends.session.purse, hd.tasks.trans he.tasks,
        more₁ ++ more, call, sequence, ?_, fun x hx => ?_⟩
      · have hnone : w₁.session.purse.ready = none := hd.unready
        rw [hends.session.purse] at hnone
        exact hnone
      · rw [hlog, hlog₁, List.append_assoc, List.append_assoc]
      · rcases List.mem_append.1 hx with hx | hx
        · exact hquiet₁ x hx
        · exact hquiet x hx
  | openAnswered channel =>
    refine budgets_goes (goes_openAnswered hsound.opens hsound.armed hsound.held h) ?_
    change w.openAnswered channel = some w' at h
    unfold World.openAnswered at h
    split_ifs at h
    · obtain rfl := Option.some.inj h
      rfl
    · obtain rfl := Option.some.inj h
      exact purse_beginRaised w channel
  | follow found channel =>
    exact budgets_goes (goes_follow hsound.opens hsound.armed hsound.held h) (purse_follow h)
  | beginUnwinds =>
    refine .frugal (frugal_rests (rests_beginUnwinds h) ?_)
    change w.beginUnwinds = some w' at h
    unfold World.beginUnwinds at h
    split_ifs at h
    obtain rfl := Option.some.inj h
    rfl
  | openStep e => exact .frugal (frugal_rests (rests_openStep h) (purse_openStep h))
  | read event => exact absurd rfl (hread event)
  | readEnds error =>
    refine .frugal (frugal_rests (rests_readEnds h) ?_)
    change w.readEnds error = some w' at h
    unfold World.readEnds at h
    split at h
    · exact absurd h (by simp)
    split at h
    · obtain rfl := Option.some.inj h
      exact purse_abort _ _
    · obtain rfl := Option.some.inj h
      rfl
  | concludes status =>
    refine .frugal (frugal_rests (rests_concludes h) ?_)
    change w.concludes status = some w' at h
    unfold World.concludes at h
    split_ifs at h
    obtain rfl := Option.some.inj h
    exact purse_conclude _ _
  | ping written =>
    rcases ping_spends h with hf | hm
    · exact .frugal hf
    · exact .mails hm
  | called n work => exact .calls (calls_called h)
  | entered n => exact .frugal (frugal_entered h)
  | answered n => exact .frugal (frugal_answered h)
  | credited n =>
    rcases credited_cases h with hf | ⟨b, hc⟩
    · exact .frugal hf
    · exact .clears hc
  | locked n =>
    rcases locked_cases h with hf | hm | ⟨b, hs⟩
    · exact .frugal hf
    · exact .mails hm
    · exact .spends hs
  | written n ok => exact .frugal (frugal_written h)
  | woken n => exact .frugal (frugal_woken h)
  | left n timeout => exact .frugal (frugal_left h)
  | unwinds n => exact .frugal (frugal_unwinds h)
  | shut =>
    obtain rfl := Option.some.inj h
    exact .frugal (Frugal.quiet ((SameSend.shut _).isQuiet (purse_shut _)) rfl)

/-! ## Reading -/

/-- What an event makes of the account. -/
inductive Purse.Reads (p : Purse) : ServerBody → Purse → Prop
  | other {body : ServerBody} : Reads p body p
  | ready {message : Ready} : p.ready = none →
      Reads p (.ready message) { p with ready := some message, credit := message.inputCredit }
  | accepted {sequence : ℕ} {credit : InputCredit} : p.ready ≠ none → p.accepted ≤ sequence →
      Reads p (.accepted sequence credit) { p with
        credit := credit
        accepted := sequence
        unaccepted := p.unaccepted.filter fun q => sequence < q.1 }

theorem takeBody_reads {body : ServerBody} (h : s.takeBody body = .ok s') :
    s.purse.Reads body s'.purse := by
  have hsame : Except.ok (ε := SpeechError) s = .ok s' → s.purse.Reads body s'.purse := by
    intro heq
    obtain rfl := Except.ok.inj heq
    exact .other
  cases body with
  | unknown => exact hsame h
  | sessionClosed checked hasCause =>
    unfold Session.takeBody at h
    dsimp only at h
    split_ifs at h
    obtain rfl := Except.ok.inj h
    exact .other
  | ready message =>
    unfold Session.takeBody at h
    dsimp only at h
    split_ifs at h with hready
    obtain rfl := takeReady_ok h
    have hnone : s.ready = none := by simpa using hready
    exact .ready hnone
  | accepted sequence credit =>
    unfold Session.takeBody Session.takeAccepted at h
    dsimp only at h
    split_ifs at h with hready hrange
    obtain rfl := takeCredit_ok h
    have hsome : s.ready ≠ none := by simpa using hready
    exact .accepted hsome hrange.1
  | task checked answer =>
    unfold Session.takeBody at h
    dsimp only at h
    split_ifs at h
    rcases answer with - | sequence
    · exact hsame h
    · unfold Session.takeAnswer at h
      dsimp only at h
      split_ifs at h
      obtain rfl := Except.ok.inj h
      exact .other
  | _ =>
    unfold Session.takeBody at h
    dsimp only at h
    split_ifs at h
    exact hsame h

/-- **An event is read.** -/
structure Learns (w : World) (body : ServerBody) (w' : World) : Prop where
  purse : w.session.purse.Reads body w'.session.purse
  sent : w'.session.sent = w.session.sent
  tasks : w'.tasks = w.tasks

theorem read_learns {event : ServerEvent} (h : w.read event = some w') :
    Learns w event.body w' := by
  unfold World.read at h
  split at h
  · exact absurd h (by simp)
  split at h
  · rename_i s error htake
    obtain rfl := Option.some.inj h
    obtain ⟨hs, -⟩ := Prod.mk.inj htake
    subst hs
    refine ⟨?_, (SameSend.abort _ _).sent, rfl⟩
    show w.session.purse.Reads event.body (Session.abort _ error).purse
    rw [purse_abort]
    exact .other
  · rename_i s₀ s htake
    obtain rfl := Option.some.inj h
    obtain ⟨-, htaken⟩ := Prod.mk.inj htake
    dsimp only at htaken
    split_ifs at htaken
    have hreads := takeBody_reads htaken
    refine ⟨hreads, ?_, rfl⟩
    rcases takeBody_sends htaken with hsame | ⟨sequence, -, rfl⟩
    · exact hsame.sent
    · rfl

end Sdk

end Tensorplate
