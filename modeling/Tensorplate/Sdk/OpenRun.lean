import Tensorplate.Sdk.Begin

/-!
# Every run of an open

Every step keeps the invariant of the open, so it holds in every run: at
most two calls are made, the second only after the first was lost, none
after the session was given up, and a session that has ended stays as it
ended.
-/

namespace Tensorplate

namespace Sdk

open Lib

variable {w w' : World}

/-- **A step keeps what the open needs.** -/
theorem keeps_step {a : World.Action} (h : Opens w) (ha : Armed w) (hstep : w.step a = some w') :
    Keeps w w' := by
  cases a with
  | openCalled => exact keeps_openCalled h ha hstep
  | beginFresh found channel => exact keeps_beginFresh h ha hstep
  | openLocked channel => exact keeps_openLocked h ha hstep
  | openAttemptFailed => exact keeps_openAttemptFailed h ha hstep
  | openWritten ok => exact keeps_openWritten h ha hstep
  | openEnding channel => exact keeps_openEnding h ha hstep
  | openAnswered channel => exact keeps_openAnswered h ha hstep
  | follow found channel => exact keeps_follow h ha hstep
  | beginUnwinds => exact keeps_beginUnwinds h ha hstep
  | openStep e => exact keeps_openStep h ha hstep
  | read event => exact keeps_read h ha hstep
  | readEnds error => exact keeps_readEnds h ha hstep
  | concludes status => exact keeps_concludes h ha hstep
  | ping written => exact keeps_ping h ha hstep
  | called n work => exact keeps_called h ha hstep
  | entered n => exact (unseen_entered hstep).keeps h ha
  | answered n => exact (unseen_answered hstep).keeps h ha
  | credited n => exact (unseen_credited hstep).keeps h ha
  | locked n => exact (unseen_locked hstep).keeps h ha
  | written n ok => exact keeps_written h ha hstep
  | woken n => exact (unseen_woken hstep).keeps h ha
  | left n timeout => exact keeps_left h ha hstep
  | unwinds n => exact (unseen_unwinds hstep).keeps h ha
  | shut =>
    obtain rfl := Option.some.inj hstep
    exact ⟨h.shut, ha.shut, staysEnded_shut h⟩

/-- A session before its open. -/
theorem opens_fresh (targets sendsSegments : Bool) (sampleRateHz : ℕ) (target : StreamTarget) :
    Opens (World.fresh targets sendsSegments sampleRateHz target) := by
  constructor
  case calls => rfl
  case number => exact nofun
  case unopened =>
    refine fun _ => ⟨rfl, rfl, rfl, rfl, .inl rfl, ?_⟩
    rintro (h | h)
    · exact absurd h (by simp [World.fresh])
    · exact absurd h (by simp [World.fresh])
  case reading =>
    rintro (h | h)
    · exact absurd h (by simp [World.fresh])
    · exact absurd h (by simp [World.fresh])
  case opening => simp [World.fresh]
  case waiting => exact ⟨fun _ => rfl, fun h => absurd h (by simp [World.fresh])⟩
  case returned => simp [World.fresh]
  case lawful => exact lawful_nil
  all_goals simp [World.fresh]

theorem armed_fresh (targets sendsSegments : Bool) (sampleRateHz : ℕ) (target : StreamTarget) :
    Armed (World.fresh targets sendsSegments sampleRateHz target) :=
  ⟨fun h => absurd rfl h, fun _ h => absurd h (by simp [World.fresh, Stage.sends])⟩

section Runs

variable {targets sendsSegments : Bool} {sampleRateHz : ℕ} {target : StreamTarget}

theorem opens_run
    (hrun : Run World.step Free (World.fresh targets sendsSegments sampleRateHz target) w) :
    Opens w ∧ Armed w :=
  hrun.invariant (I := fun w => Opens w ∧ Armed w) ⟨opens_fresh .., armed_fresh ..⟩
    fun _ _ _ h _ hstep => ⟨(keeps_step h.1 h.2 hstep).opens, (keeps_step h.1 h.2 hstep).armed⟩

/-- A session that has ended stays so, whatever follows. -/
theorem staysEnded_run (h : Opens w) (ha : Armed w) (hrun : Run World.step Free w w') :
    StaysEnded w.session w'.session := by
  have hkeeps := hrun.invariant (I := Keeps w) ⟨h, ha, fun he => ⟨he, rfl⟩⟩ fun v a v' hv _ hstep => by
    have hnext := keeps_step hv.opens hv.armed hstep
    refine ⟨hnext.opens, hnext.armed, fun he => ?_⟩
    obtain ⟨hended, hfailure⟩ := hv.stays he
    obtain ⟨hended', hfailure'⟩ := hnext.stays hended
    exact ⟨hended', hfailure'.trans hfailure⟩
  exact hkeeps.stays

/-- The calls of a session are its first, or its first two. -/
theorem Opens.calls_le (h : Opens w) : (callsIn w.session.log).length ≤ 2 := by
  rw [h.calls, List.length_range']
  rcases hcall : w.session.call with - | n
  · exact Nat.zero_le _
  · have hn := h.number n hcall
    rw [Option.getD_some]
    split at hn
    · omega
    · omega

/-- **An open makes at most two calls.** No call is made after a cancel, an
abort or a shutdown, and a second only where the first one's end allows it;
a session that has ended stays as it ended; `open` leaves no call kept
aside, and where it returned Ready was read on the call in use. -/
theorem open_calls
    (hrun : Run World.step Free (World.fresh targets sendsSegments sampleRateHz target) w)
    (hlater : Run World.step Free w w') :
    (callsIn w.session.log).length ≤ 2 ∧ Lawful OkCall w.session.log ∧
      (w.session.ended = true → w'.session.ended = true ∧ w'.session.failure = w.session.failure) ∧
      (w.opener = .returned ∨ w.opener = .raised → w.session.lost = none) ∧
      (w.opener = .returned → ∃ n, w.session.call = some n ∧ w.session.ready.isSome ∧
        Happened.readReady n ∈ w.session.log) := by
  obtain ⟨h, ha⟩ := opens_run hrun
  refine ⟨h.calls_le, h.lawful, staysEnded_run h ha hlater, fun ho => ?_, fun ho => ?_⟩
  · rcases hlost : w.session.lost with - | error
    · rfl
    · -- A call is kept aside only while the open runs.
      obtain ⟨-, -, -, hopening, -⟩ := h.lost (by rw [hlost]; rfl)
      rcases h.opening.1 hopening with hw | hw
      · rcases ho with ho | ho
        · exact absurd (ho.symm.trans hw) (by simp)
        · exact absurd (ho.symm.trans hw) (by simp)
      · rcases ho with ho | ho
        · exact absurd (ho.symm.trans hw) (by simp)
        · exact absurd (ho.symm.trans hw) (by simp)
  · have hready := h.returned (.inr ho)
    have hopened := h.call_of_ready hready
    obtain ⟨n, hn⟩ := Option.ne_none_iff_exists'.1 fun hnone => hopened (.inl hnone)
    have hread := (h.ready hready).2
    rw [hn] at hread
    exact ⟨n, hn, hready, hread⟩

/-- A client whose first call is lost, and whose agent then names another target. -/
def reopening : List World.Action :=
  [.openCalled, .beginFresh (.ok ⟨"a", "d", 1, "x"⟩) true, .openWritten true, .readEnds none,
   .concludes .unavailable, .openAnswered true, .follow (.ok ⟨"b", "d", 2, "x"⟩) true, .openWritten true,
   .read ⟨1, .ready { sessionId := "s", generation := 2, descriptorDigest := "x",
                      inputCredit := ⟨0, 1, 0, 0⟩, outputStallTimeoutMs := 1
                      heartbeatIntervalMs := 1, checked := true }⟩,
   .openAnswered true, .openStep .done]

theorem reopening_ends :
    (exec World.step (World.fresh true false 16000 ⟨"", "", 0, ""⟩) reopening).map
      (fun w => (callsIn w.session.log, w.opener, w.session.call)) = some ([1, 2], .returned, some 2) := by
  decide +kernel

theorem open_calls_reopening : ∃ w : World,
    Run World.step Free (World.fresh true false 16000 ⟨"", "", 0, ""⟩) w ∧
      callsIn w.session.log = [1, 2] ∧ w.opener = .returned ∧
      Happened.readReady 2 ∈ w.session.log := by
  obtain ⟨w, hexec, hw⟩ := Option.map_eq_some_iff.1 reopening_ends
  obtain ⟨hcalls, hrest⟩ := Prod.mk.inj hw
  obtain ⟨hopener, hcall⟩ := Prod.mk.inj hrest
  have hrun := Run.of_exec hexec
  refine ⟨w, hrun, hcalls, hopener, ?_⟩
  obtain ⟨-, -, -, -, hready⟩ := open_calls hrun Run.refl
  obtain ⟨n, hn, -, hin⟩ := hready hopener
  obtain rfl := Option.some.inj (hcall.symm.trans hn)
  exact hin

end Runs

end Sdk

end Tensorplate
