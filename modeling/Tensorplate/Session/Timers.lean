import Tensorplate.Session.Calls

/-!
# The finalize deadline

`SessionTimers` follows the public states, the machine its finer phases.
The timer of a finalization or a drain is set exactly in the phases that
owe a completion, since the event that entered them, and a session is
aborted by that deadline exactly when it owed a completion for as long and
no other deadline came first.
-/

namespace Tensorplate

namespace Serving

open Lib

/-- The phases that owe a completion. -/
def Phase.owing : Phase → Bool
  | .finalizingAfterFinalize | .finalizingAfterEndpoint | .drainingWorking => true
  | _ => false

theorem Phase.owing_iff {phase : Phase} : phase.owing = true ↔
    phase = .finalizingAfterFinalize ∨ phase = .finalizingAfterEndpoint ∨
      phase = .drainingWorking := by
  cases phase <;> simp [owing]

/-- **The public states follow the phases that owe a completion**: what
`on_transition` reads off them tells entering, staying and leaving. -/
theorem Rules.owing_next {phase phase' : Phase} {event : LogicalSessionEvent}
    {effects : LogicalSessionEffects} (h : Rules.next phase event = some (phase', effects)) :
    (if !owesCompletion phase'.state || event == .drainCompleted then !phase'.owing
      else if !owesCompletion phase.state then phase'.owing && !phase.owing
      else phase'.owing == phase.owing) = true :=
  Rules.of_next (fun phase event phase' _ =>
    if !owesCompletion phase'.state || event == .drainCompleted then !phase'.owing
    else if !owesCompletion phase.state then phase'.owing && !phase.owing
    else phase'.owing == phase.owing) (by intro p e; cases p <;> cases e <;> rfl) h

namespace SessionTimers

@[simp] theorem onClientActivity_finalizeStartedAt (t : SessionTimers)
    (event : LogicalSessionEvent) (now : TimePoint) :
    (t.onClientActivity event now).finalizeStartedAt = t.finalizeStartedAt := by
  cases event <;> rfl

@[simp] theorem onClientActivity_deadline (t : SessionTimers) (event : LogicalSessionEvent)
    (now : TimePoint) : (t.onClientActivity event now).deadline = t.deadline := by
  cases event <;> rfl

@[simp] theorem onTransition_deadline (t : SessionTimers) (before after : LogicalSessionState)
    (event : LogicalSessionEvent) (now : TimePoint) :
    (t.onTransition before event after now).deadline = t.deadline := by
  unfold onTransition
  split
  · rfl
  · split <;> rfl

/-- The timer after an accepted event, by the phases it led between. -/
theorem onTransition_finalizeStartedAt {t : SessionTimers} {phase phase' : Phase}
    {event : LogicalSessionEvent} {effects : LogicalSessionEffects} {now : TimePoint}
    (h : Rules.next phase event = some (phase', effects))
    (ht : t.finalizeStartedAt.isSome = phase.owing) :
    (t.onTransition phase.state event phase'.state now).finalizeStartedAt =
      if phase'.owing then if phase.owing then t.finalizeStartedAt else some now else none := by
  have hrule := Rules.owing_next h
  unfold onTransition
  split
  · next hc =>
    rw [if_pos hc] at hrule
    simp_all
  · next hc =>
    rw [if_neg hc] at hrule
    split
    · next hb =>
      rw [if_pos hb] at hrule
      simp_all
    · next hb =>
      rw [if_neg hb] at hrule
      cases hp : phase.owing <;> simp_all

/-- The first deadline is the finalize deadline, due at `due`. -/
def Deadline.Stands (first : Deadline) (due : TimePoint) : Prop :=
  first.expiry = .finalizeDeadline ∧ first.dueAt = due

namespace Deadline

variable {first : Deadline} {due other now : TimePoint} {x : SessionExpiry}

/-- Another deadline takes its place exactly when it is due earlier. -/
theorem stands_consider (hx : x ≠ .finalizeDeadline) :
    (first.consider other x).Stands due ↔ first.Stands due ∧ due ≤ other := by
  unfold Stands consider
  split
  · next h =>
    refine ⟨fun he => absurd he.1 hx, fun ⟨⟨_, hd⟩, hle⟩ => ?_⟩
    exact absurd hle (Nat.not_le.2 (hd ▸ h))
  · next h => exact ⟨fun he => ⟨he, he.2 ▸ Nat.not_lt.1 h⟩, And.left⟩

/-- The session's duration is considered before it and wins a tie. -/
theorem stands_finalize {longest startedAt : TimePoint} :
    ((⟨longest, .maxDuration⟩ : Deadline).consider startedAt .finalizeDeadline).Stands due ↔
      startedAt = due ∧ due < longest := by
  unfold Stands consider
  split <;> grind

theorem expired_iff : (if now < first.dueAt then none else some first.expiry) =
    some .finalizeDeadline ↔ ∃ due, first.Stands due ∧ due ≤ now := by
  unfold Stands
  by_cases hn : now < first.dueAt
  · rw [if_pos hn]
    refine ⟨nofun, fun ⟨due, ⟨_, hd⟩, hle⟩ => ?_⟩
    exact absurd hle (Nat.not_le.2 (hd ▸ hn))
  · rw [if_neg hn, Option.some.injEq]
    exact ⟨fun he => ⟨first.dueAt, ⟨he, rfl⟩, Nat.not_lt.1 hn⟩, fun ⟨_, he, _⟩ => he.1⟩

end Deadline

theorem stands_earliestOwed (t : SessionTimers) (stalled : Option TimePoint) (due : TimePoint) :
    (t.earliestOwed stalled).Stands due ↔
      (∃ startedAt, t.finalizeStartedAt = some startedAt ∧ startedAt + t.deadline = due) ∧
        due < t.openedAt + milliseconds t.limits.maxDuration ∧
        ∀ since, stalled = some since →
          due ≤ since + SessionBudgets.kOutputNoProgressTimeout := by
  have hslow : SessionExpiry.slowConsumer ≠ .finalizeDeadline := by decide
  unfold earliestOwed
  cases hf : t.finalizeStartedAt with
  | none =>
    have hno : ¬ (⟨t.openedAt + milliseconds t.limits.maxDuration, .maxDuration⟩ :
        Deadline).Stands due := fun h => by simpa using h.1
    cases stalled <;> simp [hno, Deadline.stands_consider hslow]
  | some startedAt =>
    cases stalled with
    | none => simp [Deadline.stands_finalize]
    | some since =>
      simp [Deadline.stands_consider hslow, Deadline.stands_finalize, and_assoc]

/-- **When the finalize deadline expires a session**: it is set and has
passed, and none of the others is due earlier; the session's maximum
duration goes first where both are due together. -/
theorem expired_finalizeDeadline_iff (t : SessionTimers) (now : TimePoint)
    (state : LogicalSessionState) (stalled : Option TimePoint)
    (hlive : state ≠ .closed ∧ state ≠ .failed ∧ state ≠ .cancelRequested) :
    t.expired now state stalled = some .finalizeDeadline ↔
      ∃ startedAt, t.finalizeStartedAt = some startedAt ∧ startedAt + t.deadline ≤ now ∧
        startedAt + t.deadline < t.openedAt + milliseconds t.limits.maxDuration ∧
        (∀ since, stalled = some since →
          startedAt + t.deadline ≤ since + SessionBudgets.kOutputNoProgressTimeout) ∧
        (state ≠ .draining →
          startedAt + t.deadline ≤ t.lastHeartbeatAt + milliseconds t.limits.livenessTimeout ∧
          startedAt + t.deadline ≤ t.lastActivityAt + milliseconds t.limits.idleTimeout) := by
  obtain ⟨h₁, h₂, h₃⟩ := hlive
  have hcheck : (state == .closed || state == .failed || state == .cancelRequested) = false := by
    simp [h₁, h₂, h₃]
  have hbeat : SessionExpiry.heartbeat ≠ .finalizeDeadline := by decide
  have hidle : SessionExpiry.idle ≠ .finalizeDeadline := by decide
  unfold expired earliest
  simp only [hcheck, Bool.false_eq_true, if_false]
  by_cases hd : state = .draining
  · subst hd
    simp only [bne_self_eq_false, Bool.false_eq_true, if_false, Deadline.expired_iff,
      stands_earliestOwed]
    constructor
    · rintro ⟨_, ⟨⟨startedAt, hs, rfl⟩, hdur, hstall⟩, hle⟩
      exact ⟨startedAt, hs, hle, hdur, hstall, by simp⟩
    · rintro ⟨startedAt, hs, hle, hdur, hstall, -⟩
      exact ⟨_, ⟨⟨startedAt, hs, rfl⟩, hdur, hstall⟩, hle⟩
  · have hne : (state != .draining) = true := by simp [hd]
    simp only [hne, if_true, Deadline.expired_iff, Deadline.stands_consider hbeat,
      Deadline.stands_consider hidle, stands_earliestOwed]
    constructor
    · rintro ⟨_, ⟨⟨⟨⟨startedAt, hs, rfl⟩, hdur, hstall⟩, hb⟩, hi⟩, hle⟩
      exact ⟨startedAt, hs, hle, hdur, hstall, fun _ => ⟨hb, hi⟩⟩
    · rintro ⟨startedAt, hs, hle, hdur, hstall, hlive⟩
      exact ⟨_, ⟨⟨⟨⟨startedAt, hs, rfl⟩, hdur, hstall⟩, (hlive hd).1⟩, (hlive hd).2⟩, hle⟩

end SessionTimers

namespace Slot

variable {β : Type} {s s' : Slot β} {entry entry' : Entry}

/-- The accepted events of a slot's own session, in order. -/
def ownMoments (s : Slot β) : List Moment := s.moments.filter fun m => m.key == s.key

/-- The session owed a completion from `startedAt` on: the event read then
entered the phases that owe one, and no later event left them. -/
def OwingSince (s : Slot β) (startedAt : TimePoint) : Prop :=
  ∃ past entered later, s.ownMoments = past ++ entered :: later ∧
    entered.readAt = startedAt ∧ entered.before.owing = false ∧ entered.after.owing = true ∧
    ∀ m ∈ later, m.before.owing = true ∧ m.after.owing = true

/-- **The timers say what the session owes.** -/
structure Timed (s : Slot β) (entry : Entry) : Prop where
  deadline : entry.timers.deadline = finalizeDeadline entry.credit.budgets.inputKind
  last : ∀ m, s.ownMoments.getLast? = some m → m.after = entry.machine.phase
  started : entry.timers.finalizeStartedAt.isSome = entry.machine.phase.owing
  since : ∀ startedAt, entry.timers.finalizeStartedAt = some startedAt → s.OwingSince startedAt

/-- There is one event that last entered. -/
theorem OwingSince.unique {first second : TimePoint} (h₁ : s.OwingSince first)
    (h₂ : s.OwingSince second) : first = second := by
  obtain ⟨past₁, e₁, later₁, heq₁, rfl, hb₁, -, hl₁⟩ := h₁
  obtain ⟨past₂, e₂, later₂, heq₂, rfl, hb₂, -, hl₂⟩ := h₂
  rw [heq₁] at heq₂
  -- Either the two coincide or one lies in the other's later part.
  rcases List.append_eq_append_iff.1 heq₂ with ⟨mid, -, hm⟩ | ⟨mid, -, hm⟩
  · cases mid with
    | nil => simp_all
    | cons x mid =>
      have hin : e₂ ∈ later₁ := by
        simp only [List.cons_append, List.cons.injEq] at hm
        rw [hm.2]
        simp
      simp [(hl₁ e₂ hin).1] at hb₂
  · cases mid with
    | nil => simp_all
    | cons x mid =>
      have hin : e₁ ∈ later₂ := by
        simp only [List.cons_append, List.cons.injEq] at hm
        rw [hm.2]
        simp
      simp [(hl₂ e₁ hin).1] at hb₁

/-- **The timer is set since when the session owes a completion.** -/
theorem Timed.started_iff (ht : s.Timed entry) (startedAt : TimePoint) :
    entry.timers.finalizeStartedAt = some startedAt ↔ s.OwingSince startedAt := by
  refine ⟨ht.since startedAt, fun ho => ?_⟩
  obtain ⟨past, entered, later, heq, hread, -, ha, hlater⟩ := id ho
  have howing : entry.machine.phase.owing = true := by
    rcases List.eq_nil_or_concat later with rfl | ⟨front, m, rfl⟩
    · rw [← ht.last entered (by rw [heq]; simp)]
      exact ha
    · rw [← ht.last m (by rw [heq]; simp [List.getLast?_cons])]
      exact (hlater m (by simp)).2
  obtain ⟨at', hat⟩ := Option.isSome_iff_exists.1 (ht.started.trans howing)
  rw [hat, (ht.since at' hat).unique ho]

theorem Took.ownMoments {event : LogicalSessionEvent} {transition : ManagedSessionTransition}
    (h : s.Took event entry transition entry' s') : s'.ownMoments = s.ownMoments ++
      [⟨s.key, event, entry.machine.phase, entry'.machine.phase, s.clock s.reads⟩] := by
  simp [Slot.ownMoments, h.moments, h.key]

theorem Apart.ownMoments (h : Apart s s') : s'.ownMoments = s.ownMoments := by
  obtain ⟨others, hm, hk⟩ := h.moments
  have hnone : others.filter (fun m => m.key == s.key) = [] := by
    simpa using hk
  simp [Slot.ownMoments, h.key, hm, hnone]

/-- **An accepted event keeps the timers true.** -/
theorem Took.timed {event : LogicalSessionEvent} {transition : ManagedSessionTransition}
    (h : s.Took event entry transition entry' s') (ht : s.Timed entry) : s'.Timed entry' := by
  have hstart : entry'.timers.finalizeStartedAt =
      if entry'.machine.phase.owing then
        if entry.machine.phase.owing then entry.timers.finalizeStartedAt
        else some (s.clock s.reads)
      else none := by
    rw [h.timers, LogicalSessionMachine.state, LogicalSessionMachine.state,
      SessionTimers.onTransition_finalizeStartedAt h.next (by simpa using ht.started)]
    simp
  refine ⟨?_, ?_, ?_, ?_⟩
  · rw [h.timers, h.credit]
    simpa using ht.deadline
  · intro m hm
    rw [h.ownMoments, List.getLast?_concat, Option.some.injEq] at hm
    rw [← hm]
  · rw [hstart]
    cases h' : entry'.machine.phase.owing <;> cases h₀ : entry.machine.phase.owing <;>
      simp [h₀, ht.started]
  · intro startedAt hs
    rw [hstart] at hs
    cases h' : entry'.machine.phase.owing with
    | false => simp [h'] at hs
    | true =>
      cases h₀ : entry.machine.phase.owing with
      | false =>
        simp only [h', h₀, if_true, Bool.false_eq_true, if_false, Option.some.injEq] at hs
        exact ⟨s.ownMoments, _, [], h.ownMoments, hs, h₀, h', by simp⟩
      | true =>
        simp only [h', h₀, if_true] at hs
        obtain ⟨past, entered, later, heq, hread, hb, ha, hlater⟩ := ht.since startedAt hs
        refine ⟨past, entered, later ++ [_], by rw [h.ownMoments, heq]; simp; rfl, hread, hb, ha, ?_⟩
        intro m hm
        rcases List.mem_append.1 hm with hm | hm
        · exact hlater m hm
        · simp only [List.mem_singleton] at hm
          subst hm
          exact ⟨h₀, h'⟩

/-- The timers of a session that is held are true. -/
def TimedIfHeld (s : Slot β) : Prop := ∀ entry, s.entry = some entry → s.Timed entry

theorem timed_of_fresh (hf : s.Fresh) : s.TimedIfHeld := by
  intro entry he
  simp [hf.entry] at he

theorem kept_timed : Kept (TimedIfHeld (β := β)) where
  opened s entry output _ hf ho entry' he := by
    simp only [Option.some.injEq] at he
    subst he
    refine ⟨ho.deadline, fun m hm => ?_, ?_, fun startedAt hs => ?_⟩
    · have hempty : s.ownMoments = [] := by simpa [ownMoments] using hf.moments
      have hm' : s.ownMoments.getLast? = some m := hm
      simp [hempty] at hm'
    · rw [ho.started, ho.phase]
      rfl
    · simp [ho.started] at hs
  move s touch s' hP hm := by
    intro entry' he
    cases hm with
    | looked =>
      have ht := hP entry' he
      exact ⟨ht.deadline, ht.last, ht.started, ht.since⟩
    | @charged entry bytes credit hs hc =>
      simp only [Option.some.injEq] at he
      subst he
      have hb := (orderly_charge bytes).budgets entry.credit
      rw [hc] at hb
      have ht := hP entry hs
      exact ⟨by rw [ht.deadline, ← hb], ht.last, ht.started, ht.since⟩
    | @credited entry credit status hs hb _ _ _ =>
      simp only [Option.some.injEq] at he
      subst he
      have ht := hP entry hs
      exact ⟨by rw [ht.deadline, ← hb], ht.last, ht.started, ht.since⟩
    | @told _ event entry entry'' transition ht =>
      have hleft := ht.left
      split at hleft
      · simp [hleft] at he
      · rw [hleft, Option.some.injEq] at he
        subst he
        exact ht.timed (hP entry ht.held)
  apart s s' hP ha := by
    intro entry he
    have ht := hP entry (ha.entry ▸ he)
    refine ⟨ht.deadline, ?_, ht.started, fun startedAt hs => ?_⟩
    · rw [ha.ownMoments]
      exact ht.last
    · unfold OwingSince
      rw [ha.ownMoments]
      exact ht.since startedAt hs

/-! ## The abort -/

/-- The abort of a session past one of its deadlines names that deadline. -/
theorem applyLocked_abort {entry : Entry} {cause : Error} {transition : ManagedSessionTransition}
    (hlive : Rules.outcomeFixed entry.machine.phase = false)
    (h : s.applyLocked entry .abort (some cause) = (s', some (entry', transition))) :
    transition.effects ≠ [] ∧ transition.event = some .abort ∧
      transition.state = .cancelRequested ∧ transition.cause = some cause := by
  rcases hm : entry.machine with ⟨phase, generation⟩
  rw [hm] at hlive
  simp only [applyLocked, LogicalSessionMachine.apply, hm] at h
  cases phase <;> simp_all [Rules.next, Rules.onTermination, Rules.outcomeFixed,
    Rules.cleanupRequested, causeAfter, LogicalSessionMachine.state, Phase.state, now] <;>
    (obtain ⟨-, -, rfl⟩ := h; simp)

/-- A session whose outcome is fixed misses no deadline. -/
theorem expiry_of_outcomeFixed (h : Rules.outcomeFixed entry.machine.phase = true) :
    s.expiry entry = none := by
  unfold expiry SessionTimers.expired SessionTimers.earliest LogicalSessionMachine.state
  cases hp : entry.machine.phase <;> simp_all [Rules.outcomeFixed, Phase.state]

end Slot

namespace Slot

variable {β : Type} {s : Slot β} {entry : Entry}

/-- An abort of this session, shown with the deadline it missed. -/
def TimedOut (entry : Entry) (missed : SessionExpiry) (transition : ManagedSessionTransition) :
    Prop :=
  transition.event = some .abort ∧ transition.state = .cancelRequested ∧
    transition.cause = some (entry.expiryCause missed)

theorem expiryLocked_eq (s : Slot β) (entry : Entry) :
    s.expiryLocked entry = (s.looked, s.expiry entry) := rfl

theorem outcomeOpen_of_expiry {missed : SessionExpiry} (h : s.expiry entry = some missed) :
    Rules.outcomeFixed entry.machine.phase = false := by
  cases hf : Rules.outcomeFixed entry.machine.phase with
  | false => rfl
  | true => simp [expiry_of_outcomeFixed hf] at h

/-- **The sweep aborts exactly the sessions past a deadline.** -/
theorem sweep_cases (hs : s.entry = some entry) :
    (∀ missed, s.expiry entry = some missed → ∃ transition,
      s.sweep.shown = s.shown ++ [transition] ∧ TimedOut entry missed transition) ∧
    (s.expiry entry = none → s.sweep = s.looked) := by
  constructor
  · intro missed hx
    obtain ⟨s', transition, entry', happ, ht⟩ := took_abort
      (show s.looked.entry = some entry from hs) (some (entry.expiryCause missed))
    have habort := applyLocked_abort (outcomeOpen_of_expiry hx) happ
    refine ⟨transition, ?_, habort.2⟩
    simp only [sweep, hs, expiryLocked_eq, hx, happ]
    rw [ht.shown, if_pos (.inl habort.1)]
    rfl
  · intro hx
    simp only [sweep, hs, expiryLocked_eq, hx]

/-- The deadlines' check shows the abort of a session past one. -/
theorem Checked.shown_of_expiry {entry' : Entry} {mid : Slot β} {missed : SessionExpiry}
    (hx : s.expiry entry = some missed) (h : s.Checked entry entry' mid) :
    ∃ transition, mid.shown = s.shown ++ [transition] ∧ TimedOut entry missed transition := by
  cases h with
  | unexpired hn => simp [hn] at hx
  | @aborted expiry transition _ _ _ hx' happ ht =>
    obtain rfl : expiry = missed := by simpa [hx'] using hx
    have habort := applyLocked_abort (outcomeOpen_of_expiry hx) happ
    refine ⟨transition, ?_, habort.2⟩
    rw [ht.shown, if_pos (.inl habort.1)]
    rfl

/-- **A call finds a deadline missed before it applies its event.** -/
theorem applyEvent_shown_of_expiry (hs : s.entry = some entry) {missed : SessionExpiry}
    (hx : s.expiry entry = some missed) (event : LogicalSessionEvent) (cause : Option Error) :
    ∃ transition later,
      (s.applyEvent event cause none).1.shown = s.shown ++ transition :: later ∧
        TimedOut entry missed transition := by
  obtain ⟨entry', mid, hc, heq⟩ := applyEvent_checked hs event cause none
  obtain ⟨transition, hshown, hout⟩ := hc.shown_of_expiry hx
  rcases heq with heq | ⟨-, -, refusal, heq⟩
  · have hown : Own mid (s.applyEvent event cause none).1 := by
      rw [heq]
      rcases applyUnexpired_cases (hc.entry hs) event cause with
        ⟨_, _, ht, -⟩ | ⟨-, _, _, _, ht, -⟩
      · exact Own.of_move (.told ht)
      · exact Own.of_move (.told ht)
    obtain ⟨later, hlater, -⟩ := hown.shown
    exact ⟨transition, later, by rw [hlater, hshown]; simp, hout⟩
  · exact ⟨transition, [], by rw [heq, hshown], hout⟩

/-- **A call that finds no deadline missed aborts nothing**: the machine is
told its event, or that the session failed, and nothing else. -/
theorem applyEvent_moments_of_unexpired (hs : s.entry = some entry) (hx : s.expiry entry = none)
    (event : LogicalSessionEvent) (cause : Option Error) :
    ∃ moment, (s.applyEvent event cause none).1.moments = s.moments ++ [moment] ∧
      (moment.event = event ∨ moment.event = .fail) := by
  obtain ⟨entry', mid, hc, heq⟩ := applyEvent_checked hs event cause none
  cases hc with
  | aborted hx' _ _ => simp [hx] at hx'
  | unexpired _ =>
    rcases heq with heq | ⟨hne, -, -, -⟩
    · rw [heq]
      rcases applyUnexpired_cases (show s.looked.entry = some entry from hs) event cause with
        ⟨_, _, ht, -⟩ | ⟨-, _, _, _, ht, -⟩
      · exact ⟨_, ht.moments, .inl rfl⟩
      · exact ⟨_, ht.moments, .inr rfl⟩
    · exact absurd hx hne

end Slot

namespace SessionManager

variable {β : Type}

/-- **The finalize deadline is exact.** After every sequence of calls, a
held session's timer is set exactly in the phases that owe a completion,
to the time of the event that entered them, and the deadline it gives
expires the session exactly when a completion was owed since then for the
deadline of its input kind and neither the duration, the stall, the
heartbeat nor the idle deadline came first. A sweep, and any event, aborts
a session by the deadline it missed, and only such a session. -/
theorem calls_finalize_deadline_exact {limits : SessionLimits} {generation : ℕ}
    {clock : ℕ → TimePoint} {m : SessionManager β}
    (hm : create limits generation clock = .ok m) (calls : List (ManagerCall β)) {key : ℕ}
    {entry : Entry} (he : (m.afterAll calls).entries[key]? = some entry) :
    let s := (m.afterAll calls).slot key
    let timers := entry.timers
    (timers.finalizeStartedAt.isSome = true ↔
      entry.machine.phase = .finalizingAfterFinalize ∨
        entry.machine.phase = .finalizingAfterEndpoint ∨
        entry.machine.phase = .drainingWorking) ∧
    (∀ startedAt, timers.finalizeStartedAt = some startedAt ↔ s.OwingSince startedAt) ∧
    (s.expiry entry = some .finalizeDeadline ↔
      ∃ startedAt, s.OwingSince startedAt ∧
        let due := startedAt + finalizeDeadline entry.credit.budgets.inputKind
        due ≤ s.clock s.reads ∧
        due < timers.openedAt + milliseconds timers.limits.maxDuration ∧
        (∀ since, s.output.stalledSince = some since →
          due ≤ since + SessionBudgets.kOutputNoProgressTimeout) ∧
        (entry.machine.state ≠ .draining →
          due ≤ timers.lastHeartbeatAt + milliseconds timers.limits.livenessTimeout ∧
          due ≤ timers.lastActivityAt + milliseconds timers.limits.idleTimeout)) ∧
    (∀ missed, s.expiry entry = some missed → ∃ transition,
      s.sweep.shown = s.shown ++ [transition] ∧ Slot.TimedOut entry missed transition) ∧
    (s.expiry entry = none → s.sweep = s.looked) ∧
    (∀ missed, s.expiry entry = some missed → ∀ event cause, ∃ transition later,
      (s.applyEvent event cause none).1.shown = s.shown ++ transition :: later ∧
        Slot.TimedOut entry missed transition) ∧
    (s.expiry entry = none → ∀ event cause, ∃ moment,
      (s.applyEvent event cause none).1.moments = s.moments ++ [moment] ∧
        (moment.event = event ∨ moment.event = .fail)) := by
  intro s timers
  have hs : s.entry = some entry := he
  have ht : s.Timed entry :=
    ((closed_keeps Slot.kept_timed).afterAll (keeps_create (fun _ => Slot.timed_of_fresh) hm)
      calls).holds key entry hs
  refine ⟨?_, ht.started_iff, ?_, (Slot.sweep_cases hs).1, (Slot.sweep_cases hs).2,
    fun missed hx => Slot.applyEvent_shown_of_expiry hs hx,
    Slot.applyEvent_moments_of_unexpired hs⟩
  · rw [ht.started, Phase.owing_iff]
  · have hopen : ∀ startedAt, s.OwingSince startedAt →
        entry.machine.state ≠ .closed ∧ entry.machine.state ≠ .failed ∧
          entry.machine.state ≠ .cancelRequested := by
      intro startedAt ho
      have howing : entry.machine.phase.owing = true := by
        rw [← ht.started, (ht.started_iff startedAt).2 ho]
        rfl
      unfold LogicalSessionMachine.state
      rcases Phase.owing_iff.1 howing with hp | hp | hp <;> simp [hp, Phase.state]
    unfold Slot.expiry
    constructor
    · intro hx
      have hlive := Slot.outcomeOpen_of_expiry (s := s) hx
      have hlive' : entry.machine.state ≠ .closed ∧ entry.machine.state ≠ .failed ∧
          entry.machine.state ≠ .cancelRequested := by
        unfold LogicalSessionMachine.state
        cases hp : entry.machine.phase <;> simp_all [Rules.outcomeFixed, Phase.state]
      rw [SessionTimers.expired_finalizeDeadline_iff _ _ _ _ hlive', ht.deadline] at hx
      obtain ⟨startedAt, hstart, hrest⟩ := hx
      exact ⟨startedAt, (ht.started_iff startedAt).1 hstart, hrest⟩
    · rintro ⟨startedAt, ho, hrest⟩
      rw [SessionTimers.expired_finalizeDeadline_iff _ _ _ _ (hopen startedAt ho), ht.deadline]
      exact ⟨startedAt, (ht.started_iff startedAt).2 ho, hrest⟩

/-- An audio session whose Finalize is read at twenty seconds, and which is
asked its status later, owes a completion since twenty seconds. -/
theorem calls_finalize_deadline_exact_late :
    ∃ (m : SessionManager Unit) (budgets : SessionBudgets) (entry : Entry),
      create SessionLimits.defaults 7 (fun reading => seconds (5 * reading)) = .ok m ∧
      SessionBudgets.forAudioInput 32000 = .ok budgets ∧
      (m.afterAll [.openSession 7 budgets (.ok ()) (.ok ()), .apply 1 .finalize none,
        .apply 1 .statusRequest none]).entries[1]? = some entry ∧
      ((m.afterAll [.openSession 7 budgets (.ok ()) (.ok ()), .apply 1 .finalize none,
        .apply 1 .statusRequest none]).slot 1).OwingSince (seconds 20) := by
  have hm : create (β := Unit) SessionLimits.defaults 7 (fun reading => seconds (5 * reading)) =
      .ok {
        limits := SessionLimits.defaults
        servingGeneration := 7
        clock := fun reading => seconds (5 * reading) } := rfl
  refine ⟨_, _, _, hm, rfl, rfl, ?_⟩
  exact ((calls_finalize_deadline_exact hm _ rfl).2.1 (seconds 20)).1 rfl

end SessionManager

end Serving

end Tensorplate
