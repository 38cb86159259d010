import Tensorplate.Lib.Except
import Tensorplate.Sdk.Open

/-!
# The reader of a call

An event that is read leaves the open as it was, or is its Ready; one that
breaks the protocol ends the call. The end of a call settles the session,
or keeps the first call of an open aside.
-/

namespace Tensorplate

namespace Sdk

open Lib

variable {w w' : World}

theorem takeCredit_ok {s s' : Session} {credit : InputCredit} (h : s.takeCredit credit = .ok s') :
    s' = { s with credit := credit } := by
  unfold Session.takeCredit at h
  split_ifs at h
  exact (Except.ok.inj h).symm

theorem takeReady_ok {s s' : Session} {ready : Ready} (h : s.takeReady ready = .ok s') :
    s' = { s with credit := ready.inputCredit, ready := some ready }.note
      (.readReady (s.call.getD 0)) := by
  unfold Session.takeReady at h
  split at h
  · exact absurd h (by simp)
  split at h
  · exact absurd h (by simp)
  obtain ⟨s₁, hs₁, h⟩ := bind_eq_ok.1 h
  obtain rfl := takeCredit_ok hs₁
  split_ifs at h
  exact (Except.ok.inj h).symm

/-- **What an event may do to the session**, once counted: it changes the
credit or what was closed, it is the session's Ready, or it answers the
Finalize that waits. -/
theorem takeBody_cases {s s' : Session} {body : ServerBody} (h : s.takeBody body = .ok s') :
    (∃ credit unaccepted accepted closed, s' = { s with
        credit := credit, unaccepted := unaccepted, accepted := accepted, closed := closed }) ∨
      (∃ ready : Ready, s.ready = none ∧ s' =
        { s with credit := ready.inputCredit, ready := some ready }.note
          (.readReady (s.call.getD 0))) ∨
      ∃ sequence, s.finalizing = some sequence ∧ s' =
        { s with finalizing := none, answer := some sequence }.note (.readAnswer sequence) := by
  have hsame : Except.ok (ε := SpeechError) s = .ok s' → ∃ credit unaccepted accepted closed, s' =
      { s with
        credit := credit, unaccepted := unaccepted, accepted := accepted, closed := closed } := by
    intro heq
    obtain rfl := Except.ok.inj heq
    exact ⟨s.credit, s.unaccepted, s.accepted, s.closed, rfl⟩
  cases body with
  | unknown => exact .inl (hsame h)
  | sessionClosed checked hasCause =>
    unfold Session.takeBody at h
    dsimp only at h
    split_ifs at h
    exact .inl ⟨_, _, _, _, (Except.ok.inj h).symm⟩
  | ready message =>
    unfold Session.takeBody at h
    dsimp only at h
    split_ifs at h with hready
    exact .inr (.inl ⟨message, by simpa using hready, takeReady_ok h⟩)
  | accepted sequence credit =>
    unfold Session.takeBody Session.takeAccepted at h
    dsimp only at h
    split_ifs at h
    have hcredit := takeCredit_ok h
    exact .inl ⟨credit, s.unaccepted.filter fun p => sequence < p.1, sequence, s.closed, hcredit⟩
  | task checked answer =>
    unfold Session.takeBody at h
    dsimp only at h
    split_ifs at h
    rcases answer with - | sequence
    · exact .inl (hsame h)
    · unfold Session.takeAnswer at h
      dsimp only at h
      split_ifs at h with hwaits
      exact .inr (.inr ⟨sequence, not_not.1 hwaits, (Except.ok.inj h).symm⟩)
  | cancelAccepted =>
    unfold Session.takeBody at h
    dsimp only at h
    split_ifs at h
    exact .inl (hsame h)
  | pong =>
    unfold Session.takeBody at h
    dsimp only at h
    split_ifs at h
    exact .inl (hsame h)
  | status =>
    unfold Session.takeBody at h
    dsimp only at h
    split_ifs at h
    exact .inl (hsame h)

/-- Ready is read. -/
def Readies (s s' : Session) : Prop :=
  s.ready = none ∧ s'.ready.isSome ∧ ∃ s₁, SameSession s s₁ ∧
    s' = { s₁ with ready := s'.ready }.note (.readReady (s.call.getD 0))

/-- What it may do to the open. -/
theorem takeBody_ok {s s' : Session} {body : ServerBody} (h : s.takeBody body = .ok s') :
    SameSession s s' ∨ Readies s s' := by
  rcases takeBody_cases h with ⟨credit, unaccepted, accepted, closed, rfl⟩ | ⟨ready, hnone, rfl⟩ |
    ⟨sequence, -, rfl⟩
  · exact .inl { SameSession.refl s with }
  · refine .inr ⟨hnone, rfl, { s with credit := ready.inputCredit }, ?_, rfl⟩
    exact { SameSession.refl s with }
  · have hquiet : Happened.Quiet (.readAnswer sequence) := trivial
    have hanswer : SameSession s { s with finalizing := none, answer := some sequence } :=
      { SameSession.refl s with }
    exact .inl (hanswer.trans (SameSession.note _ hquiet))

/-- An event is counted. -/
theorem Opens.counted (h : Opens w) :
    Opens (w.withSession { w.session with received := w.session.received + 1 }) := by
  refine { h with ready := fun hready => ?_ }
  exact ⟨Nat.succ_pos _, (h.ready hready).2⟩

theorem keeps_abort (h : Opens w) (ha : Armed w) (error : SpeechError)
    (hreader : w.reader = .reading) : Keeps w (w.withSession (w.session.abort error)) := by
  obtain ⟨hended, hlost, hcall⟩ := h.reading (.inl hreader)
  have hnot : ¬(w.session.call = none ∨ w.session.lost.isSome) := by
    rintro (hnone | hsome)
    · rw [hnone] at hcall
      exact absurd hcall (by simp)
    · rw [hlost] at hsome
      exact absurd hsome (by simp)
  exact ⟨h.abort error fun hor => absurd hor hnot, ha.abort error,
    fun he => absurd he (by simp [hended])⟩

/-- Ready is read on the call in use. -/
theorem Opens.readies (h : Opens w) {s : Session} (hreader : w.reader = .reading)
    (hreceived : 0 < w.session.received) (hr : Readies w.session s) : Opens (w.withSession s) := by
  obtain ⟨hended, hlost, hcall⟩ := h.reading (.inl hreader)
  obtain ⟨hnone, hsome, s₁, hsame, heq⟩ := hr
  have h₁ := h.same (SameOpen.of_session hsame w.tasks w.pinger)
  have hcalls : s₁.call.isSome := by rwa [hsame.call]
  have hnot : ¬s₁.call = none := by
    intro hn
    rw [hn] at hcalls
    exact absurd hcalls (by simp)
  have hnote := h₁.note (x := .readReady (w.session.call.getD 0)) nofun nofun nofun
  generalize hready : s.ready = ready at heq hsome
  subst heq
  refine { hnote with unopened := fun hn => absurd hn hnot, lost := fun hl => ?_,
                      returned := fun _ => hsome, ready := fun _ => ?_,
                      writeFailed := fun _ => .inr (.inl hsome) }
  · have hl₁ : s₁.lost.isSome := hl
    rw [hsame.lost, hlost] at hl₁
    exact absurd hl₁ (by simp)
  · refine ⟨?_, ?_⟩
    · show 0 < s₁.received
      rwa [hsame.received]
    · show Happened.readReady (s₁.call.getD 0) ∈ s₁.log ++ [.readReady (w.session.call.getD 0)]
      rw [hsame.call]
      exact List.mem_append_right _ List.mem_cons_self

/-- The reader goes on to the end of its call. -/
theorem Keeps.concluding {w₁ : World} (h : Keeps w w₁) (hreader : w₁.reader = .reading) :
    Keeps w { w₁ with reader := .concluding } := by
  obtain ⟨hended, hlost, hcall⟩ := h.opens.reading (.inl hreader)
  refine ⟨{ h.opens with unopened := fun hnone => ?_, reading := fun _ => ⟨hended, hlost, hcall⟩,
                         lost := fun hl => ?_, follow := fun hb => ?_ }, ⟨h.armed.1, h.armed.2⟩, h.stays⟩
  · have hnone₁ : w₁.session.call = none := hnone
    rw [hnone₁] at hcall
    exact absurd hcall (by simp)
  · have hl₁ : w₁.session.lost.isSome := hl
    rw [hlost] at hl₁
    exact absurd hl₁ (by simp)
  · have hdone := (h.opens.follow hb).2.1
    rw [hreader] at hdone
    exact absurd hdone (by simp)

theorem keeps_readEnds {error : Option SpeechError} (h : Opens w) (ha : Armed w)
    (hstep : w.readEnds error = some w') : Keeps w w' := by
  unfold World.readEnds at hstep
  split at hstep
  · exact absurd hstep (by simp)
  rename_i hreader
  rw [not_not] at hreader
  split at hstep
  · obtain rfl := Option.some.inj hstep
    exact (keeps_abort h ha _ hreader).concluding hreader
  · obtain rfl := Option.some.inj hstep
    exact Keeps.concluding ⟨h, ha, fun he => ⟨he, rfl⟩⟩ hreader

theorem keeps_read {event : ServerEvent} (h : Opens w) (ha : Armed w)
    (hstep : w.read event = some w') : Keeps w w' := by
  unfold World.read at hstep
  split at hstep
  · exact absurd hstep (by simp)
  rename_i hreader
  rw [not_not] at hreader
  have hcounted := h.counted
  have harmed : Armed (w.withSession { w.session with received := w.session.received + 1 }) :=
    ha.of_session id id
  split at hstep
  · rename_i s error htake
    obtain rfl := Option.some.inj hstep
    obtain ⟨hs, -⟩ := Prod.mk.inj htake
    subst hs
    have hkeeps := (keeps_abort hcounted harmed error hreader).concluding hreader
    exact ⟨hkeeps.opens, hkeeps.armed, hkeeps.stays⟩
  · rename_i s₀ s htake
    obtain rfl := Option.some.inj hstep
    obtain ⟨-, htaken⟩ := Prod.mk.inj htake
    dsimp only at htaken
    split_ifs at htaken
    obtain ⟨hended, -, -⟩ := h.reading (.inl hreader)
    rcases takeBody_ok htaken with hsame | hready
    · have hopens := hcounted.same (SameOpen.of_session hsame w.tasks w.pinger)
      have hpinger : ¬(s.ready.isSome ∧ w.session.ready.isNone) := by
        rw [hsame.ready]
        rintro ⟨hsome, hnone⟩
        rw [Option.isNone_iff_eq_none.1 hnone] at hsome
        exact absurd hsome (by simp)
      rw [if_neg hpinger]
      exact ⟨hopens, harmed.withSession hsame, fun he => absurd he (by simp [hended])⟩
    · have hopens := hcounted.readies hreader (Nat.succ_pos _) hready
      have hpinger : s.ready.isSome ∧ w.session.ready.isNone :=
        ⟨hready.2.1, Option.isNone_iff_eq_none.2 hready.1⟩
      rw [if_pos hpinger]
      exact ⟨hopens.same (SameOpen.of_session (.refl _) w.tasks .sleeping),
        ⟨fun _ => hready.2.1, fun _ _ => .inl hready.2.1⟩, fun he => absurd he (by simp [hended])⟩

/-- The outcome `_conclude` reads off the call. -/
def failureOf (s : Session) (status : StatusCode) : Option SpeechError :=
  if status ≠ .ok then some (.ended status s.writeFailed)
  else
    match s.closed with
    | none => some (.violation "the call ended with status OK and no SessionClosed")
    | some true => some (.violation "the call ended with status OK and a cause")
    | some false => none

/-- The call was lost with its connection. -/
def IsLost (s : Session) (status : StatusCode) : Prop :=
  (failureOf s status).bind SpeechError.grpcStatus = some .unavailable ∨
    ((failureOf s status).bind SpeechError.grpcStatus = some .internal ∧ s.writeFailed = true)

instance (s : Session) (status : StatusCode) : Decidable (IsLost s status) :=
  inferInstanceAs (Decidable (_ ∨ _))

theorem conclude_eq (s : Session) (status : StatusCode) : s.conclude status =
    if (IsLost s status ∨ (s.targets = true ∧ status ≠ .ok)) ∧
        (s.opening = true ∧ s.reopened = false ∧ s.received = 0) ∧ s.cancelling = false ∧
        s.abortError = none then
      { s.note (.concluded (s.call.getD 0) status s.received) with
        lost := failureOf s status, lostRetryable := decide (IsLost s status) }
    else (s.note (.concluded (s.call.getD 0) status s.received)).settle (failureOf s status) := rfl

theorem grpcStatus_failureOf {s : Session} {status found : StatusCode}
    (h : (failureOf s status).bind SpeechError.grpcStatus = some found) :
    status = found ∧ status ≠ .ok := by
  unfold failureOf at h
  split_ifs at h with hok
  · exact ⟨Option.some.inj h, hok⟩
  · split at h
    · exact absurd h (by simp [SpeechError.grpcStatus])
    · exact absurd h (by simp [SpeechError.grpcStatus])
    · exact absurd h (by simp)

theorem IsLost.cases {s : Session} {status : StatusCode} (h : IsLost s status) :
    status ≠ .ok ∧ (status = .unavailable ∨ (status = .internal ∧ s.writeFailed = true)) := by
  rcases h with hu | ⟨hi, hw⟩
  · exact ⟨(grpcStatus_failureOf hu).2, .inl (grpcStatus_failureOf hu).1⟩
  · exact ⟨(grpcStatus_failureOf hi).2, .inr ⟨(grpcStatus_failureOf hi).1, hw⟩⟩

/-- **What `_conclude` does**: the first call of an open that nobody gave up
is kept aside, where it was lost or the agent may name another target; every
other end settles the session. -/
theorem conclude_cases (s : Session) (status : StatusCode) :
    (∃ b : Bool, (b = true → IsLost s status) ∧
        (IsLost s status ∨ (s.targets = true ∧ status ≠ .ok)) ∧ (s.targets = false → b = true) ∧
        s.opening = true ∧ s.reopened = false ∧ s.received = 0 ∧ s.cancelling = false ∧
        s.abortError = none ∧
        s.conclude status = { s.note (.concluded (s.call.getD 0) status s.received) with
          lost := failureOf s status, lostRetryable := b }) ∨
      s.conclude status =
        (s.note (.concluded (s.call.getD 0) status s.received)).settle (failureOf s status) := by
  rw [conclude_eq]
  split
  · rename_i hcond
    obtain ⟨hfollows, ⟨ho, hr, hrec⟩, hc, ha⟩ := hcond
    refine .inl ⟨_, fun hb => of_decide_eq_true hb, hfollows, fun ht => ?_, ho, hr, hrec, hc, ha, rfl⟩
    refine decide_eq_true ?_
    rcases hfollows with hlost | ⟨htargets, -⟩
    · exact hlost
    · rw [ht] at htargets
      exact absurd htargets (by simp)
  · exact .inr rfl

/-- The reader of a call is done. -/
theorem Opens.readerDone (h : Opens w) (hcall : w.session.call.isSome) :
    Opens { w with reader := .done } := by
  refine { h with unopened := fun hnone => ?_, reading := ?_, lost := fun hl => ?_,
                  follow := fun hb => ?_ }
  · have hnone₁ : w.session.call = none := hnone
    rw [hnone₁] at hcall
    exact absurd hcall (by simp)
  · rintro (hr | hr)
    · exact absurd hr (by simp)
    · exact absurd hr (by simp)
  · obtain ⟨h₁, h₂, h₃, h₄, h₅, h₆, -, h₈, h₉⟩ := h.lost hl
    exact ⟨h₁, h₂, h₃, h₄, h₅, h₆, rfl, h₈, h₉⟩
  · obtain ⟨h₁, -, h₃⟩ := h.follow hb
    exact ⟨h₁, rfl, h₃⟩

/-- The first call's failure is kept aside. -/
theorem Opens.keepAside (h : Opens w) {status : StatusCode} {b : Bool}
    (hreader : w.reader = .concluding) (hb : b = true → IsLost w.session status)
    (hfollows : IsLost w.session status ∨ (w.session.targets = true ∧ status ≠ .ok))
    (htargets : w.session.targets = false → b = true) (hopening : w.session.opening = true)
    (hreopened : w.session.reopened = false) (hreceived : w.session.received = 0)
    (hcancelling : w.session.cancelling = false) (habort : w.session.abortError = none) :
    Opens { w with
      session := { w.session.note
          (.concluded (w.session.call.getD 0) status w.session.received) with
        lost := failureOf w.session status, lostRetryable := b }
      reader := .done } := by
  obtain ⟨hended, hlost, hcall⟩ := h.reading (.inr hreader)
  obtain ⟨n, hn⟩ := Option.isSome_iff_exists.1 hcall
  have hone : n = 1 := by
    rw [h.number n hn, hreopened]
    rfl
  subst hone
  have hready : w.session.ready = none := by
    rcases hr : w.session.ready with - | ready
    · rfl
    · have hpos := (h.ready (by rw [hr]; rfl)).1
      omega
  have hok : status ≠ .ok := by
    rcases hfollows with hl | ⟨-, hne⟩
    · exact hl.cases.1
    · exact hne
  have hlog : w.session.log ++ [.concluded (w.session.call.getD 0) status w.session.received] =
      w.session.log ++ .concluded 1 status 0 :: [] := by rw [hn, hreceived, Option.getD_some]
  have hfor : b = true → status = .unavailable ∨
      (status = .internal ∧ Happened.openWriteFailed 1 ∈ w.session.log) := by
    intro hretry
    rcases (hb hretry).cases.2 with hu | ⟨hi, hfailed⟩
    · exact .inl hu
    · rcases h.writeFailed hfailed with hc | hr | ⟨m, hm, hw⟩
      · rw [hcancelling] at hc
        exact absurd hc (by simp)
      · rw [hready] at hr
        exact absurd hr (by simp)
      · rw [hn] at hm
        obtain rfl := Option.some.inj hm
        exact .inr ⟨hi, hw⟩
  have hdone := (h.note (x := .concluded (w.session.call.getD 0) status w.session.received)
    nofun nofun nofun).readerDone hcall
  have hnot : ¬w.session.call = none := by simp [hn]
  refine { hdone with unopened := fun hnone => absurd hnone hnot, reading := ?_,
                      lost := fun _ => ?_, follow := fun hb => ?_ }
  · rintro (hr | hr)
    · exact absurd hr (by simp)
    · exact absurd hr (by simp)
  · exact ⟨hended, hcancelling, habort, hopening, hreopened, hn, rfl, hready, status,
      w.session.log, [], hlog, hok, hfor, htargets⟩
  · have hfollow := (h.follow hb).2.1
    rw [hreader] at hfollow
    exact absurd hfollow (by simp)

theorem keeps_concludes {status : StatusCode} (h : Opens w) (ha : Armed w)
    (hstep : w.concludes status = some w') : Keeps w w' := by
  unfold World.concludes at hstep
  split at hstep
  · exact absurd hstep (by simp)
  rename_i hreader
  rw [not_not] at hreader
  obtain rfl := Option.some.inj hstep
  obtain ⟨hended, hlost, hcall⟩ := h.reading (.inr hreader)
  have hstays : ∀ s, StaysEnded w.session s := fun _ he => absurd he (by simp [hended])
  rcases conclude_cases w.session status with
    ⟨b, hb, hfollows, htargets, ho, hr, hrec, hc, habort, heq⟩ | heq
  · rw [heq]
    exact ⟨h.keepAside hreader hb hfollows htargets ho hr hrec hc habort,
      ⟨ha.pinger, ha.tasks⟩, hstays _⟩
  · rw [heq]
    have hdone := (h.note (x := .concluded (w.session.call.getD 0) status w.session.received)
      nofun nofun nofun).readerDone hcall
    refine ⟨hdone.settle ⟨nofun, nofun⟩ ?_, ⟨ha.pinger, ha.tasks⟩, hstays _⟩
    -- With a call and a reader at work, `_begin` is neither before nor between its calls.
    rintro (hb | hb) -
    · rw [(h.fresh hb).1] at hcall
      exact absurd hcall (by simp)
    · have hfollow := (h.follow hb).2.1
      rw [hreader] at hfollow
      exact absurd hfollow (by simp)

end Sdk

end Tensorplate
