import Tensorplate.Lib.History
import Tensorplate.Session.Model.Machine

/-!
# What a session's effects obey over its whole life

The rules are written one event at a time; their guarantees are about
histories. Each phase knows, of some effects, that they have been carried
out or that they have not (`Phase.known`). One pass over the rules checks
that every effect of a transition is allowed by what its phase knows, and
that the next phase knows no more than the old phase and these effects
together; the guarantees over every history follow by induction on it.
-/

namespace Tensorplate

namespace Serving

open Lib

/-! ## The order the effects keep -/

namespace LogicalSessionEffect

/-- The effects that occur at most once in a session's life. -/
def once : List LogicalSessionEffect :=
  [.suppressOutput, .emitCancelAccepted, .requestCleanup, .emitReady, .startDrain, .releaseSlot,
    .emitTerminal]

/-- The effects that must have occurred before one. -/
def follows : LogicalSessionEffect → List LogicalSessionEffect
  | .emitCancelAccepted | .acceptInput | .emitReply | .startFinalize | .startDrain => [.emitReady]
  | .releaseSlot => [.requestCleanup]
  | _ => []

/-- The effects one never comes after. -/
def neverFollows : LogicalSessionEffect → List LogicalSessionEffect
  | .emitCancelAccepted => [.emitTerminal, .emitCancelAccepted]
  | .acceptInput | .emitReply | .startFinalize => [.suppressOutput, .releaseSlot, .emitTerminal]
  | .startDrain => [.suppressOutput, .releaseSlot, .emitTerminal, .startDrain]
  | effect => [effect]

/-- **An effect is permitted by the effects before it.** -/
def Permitted (past : List LogicalSessionEffect) (effect : LogicalSessionEffect) : Prop :=
  (∀ earlier ∈ effect.follows, earlier ∈ past) ∧
    ∀ earlier ∈ effect.neverFollows, earlier ∉ past

theorem once_neverFollows {effect : LogicalSessionEffect} (h : effect ∈ once) :
    effect ∈ effect.neverFollows := by
  revert h
  cases effect <;> decide

end LogicalSessionEffect

open LogicalSessionEffect

/-- What is known of a trace of effects: that one occurred, that it did
not, or nothing. -/
abbrev Knowledge := LogicalSessionEffect → Option Bool

namespace Knowledge

/-- A trace is as the knowledge says. -/
def Of (known : Knowledge) (trace : List LogicalSessionEffect) : Prop :=
  ∀ effect, (known effect = some true → effect ∈ trace) ∧
    (known effect = some false → effect ∉ trace)

/-- What is known once an effect occurred. -/
def learn (known : Knowledge) (effect : LogicalSessionEffect) : Knowledge :=
  fun other => if other = effect then some true else known other

/-- What is known is enough to permit an effect. -/
def permits (known : Knowledge) (effect : LogicalSessionEffect) : Bool :=
  effect.follows.all (fun earlier => known earlier == some true) &&
    effect.neverFollows.all (fun earlier => known earlier == some false)

/-- What is known after effects each of which was permitted in turn. -/
def learnAll (known : Knowledge) : LogicalSessionEffects → Option Knowledge
  | [] => some known
  | effect :: later => if known.permits effect then (known.learn effect).learnAll later else none

/-- Every effect. -/
def all : List LogicalSessionEffect :=
  [.suppressOutput, .emitCancelAccepted, .requestCleanup, .emitReady, .acceptInput, .emitReply,
    .startFinalize, .startDrain, .releaseSlot, .emitTerminal]

/-- `coarse` claims nothing that `fine` does not. -/
def covers (fine coarse : Knowledge) : Bool :=
  all.all fun effect => coarse effect == none || coarse effect == fine effect

variable {known fine coarse : Knowledge} {trace : List LogicalSessionEffect}
variable {effect : LogicalSessionEffect}

theorem permitted_of_permits (hk : known.Of trace) (h : known.permits effect = true) :
    Permitted trace effect := by
  simp only [permits, Bool.and_eq_true, List.all_eq_true, beq_iff_eq] at h
  exact ⟨fun e he => (hk e).1 (h.1 e he), fun e he => (hk e).2 (h.2 e he)⟩

theorem of_learn (hk : known.Of trace) : (known.learn effect).Of (trace ++ [effect]) := by
  intro e
  unfold learn
  by_cases he : e = effect
  · simp [he]
  · simpa [he] using hk e

/-- **Effects permitted in turn lengthen a lawful trace.** -/
theorem lawful_of_learnAll {effects : LogicalSessionEffects} (hk : known.Of trace)
    (hl : Lawful Permitted trace) (h : known.learnAll effects = some fine) :
    Lawful Permitted (trace ++ effects) ∧ fine.Of (trace ++ effects) := by
  induction effects generalizing known trace with
  | nil =>
    simp only [learnAll, Option.some.injEq] at h
    simpa [← h] using And.intro hl hk
  | cons effect later ih =>
    rw [learnAll] at h
    split at h
    · next hp =>
      have hl' := lawful_append_singleton.2 ⟨hl, permitted_of_permits hk hp⟩
      simpa using ih (of_learn hk) hl' h
    · simp at h

theorem Of.of_covers (hk : fine.Of trace) (h : fine.covers coarse = true) : coarse.Of trace := by
  intro e
  have he : e ∈ all := by cases e <;> decide
  have hc := List.all_eq_true.1 h e he
  simp only [Bool.or_eq_true, beq_iff_eq] at hc
  rcases hc with hc | hc
  · simp [hc]
  · rw [hc]
    exact hk e

end Knowledge

/-! ## What each phase knows -/

/-- What a machine's phase says of the effects carried out so far. -/
def Phase.known : Phase → Knowledge
  | .opening => fun _ => some false
  | .active | .finalizingAfterFinalize | .finalizingAfterEndpoint => fun effect =>
    match effect with
    | .emitReady => some true
    | .acceptInput | .emitReply | .startFinalize => none
    | _ => some false
  | .drainingWorking => fun effect =>
    match effect with
    | .emitReady | .startDrain => some true
    | .acceptInput | .emitReply | .startFinalize => none
    | _ => some false
  | .drainingReleasing => fun effect =>
    match effect with
    | .emitReady | .startDrain | .requestCleanup => some true
    | .acceptInput | .emitReply | .startFinalize => none
    | _ => some false
  | .cancelRequested => fun effect =>
    match effect with
    | .suppressOutput | .requestCleanup => some true
    | .releaseSlot | .emitTerminal => some false
    | _ => none
  | .closed => fun effect =>
    match effect with
    | .releaseSlot | .emitTerminal | .requestCleanup => some true
    | _ => none
  | .failedHolding => fun effect =>
    match effect with
    | .suppressOutput | .requestCleanup | .emitTerminal => some true
    | .releaseSlot => some false
    | _ => none
  | .failedReleased => fun effect =>
    match effect with
    | .suppressOutput | .requestCleanup | .emitTerminal | .releaseSlot => some true
    | _ => none

/-- One transition's effects are permitted in turn, and teach what its
next phase knows. -/
def Rules.explained (phase : Phase) (event : LogicalSessionEvent) : Bool :=
  match Rules.next phase event with
  | none => true
  | some (phase', effects) =>
    match phase.known.learnAll effects with
    | none => false
    | some fine => fine.covers phase'.known

/-- **The rules keep what the phases know**, checked rule by rule. -/
theorem Rules.next_explained (phase : Phase) (event : LogicalSessionEvent) :
    Rules.explained phase event = true := by
  cases phase <;> cases event <;> decide

/-- Into `closed` leads only the acknowledged release, which ends the
session in the same step. -/
theorem Rules.next_closed {phase : Phase} {event : LogicalSessionEvent}
    {effects : LogicalSessionEffects} (h : Rules.next phase event = some (.closed, effects)) :
    phase = .closed ∧ effects = [] ∨ effects = [.releaseSlot, .emitTerminal] := by
  cases phase <;> cases event <;> revert h <;>
    simp [Rules.next, Rules.onClientRequest, Rules.onDrainRequest, Rules.onProgress,
      Rules.onTermination, Rules.onRelease, Rules.serving, Rules.draining, Rules.finalizing,
      Rules.outcomeFixed, Rules.cleanupRequested, Rules.acceptsInput] <;> tauto

/-! ## Whole histories -/

/-- **What holds between a machine and its trace**: the trace is lawful,
it is as the phase knows, and a closed session's terminal followed the
release of its slot. -/
structure Traced (phase : Phase) (trace : List LogicalSessionEffect) : Prop where
  lawful : Lawful Permitted trace
  known : phase.known.Of trace
  closed : phase = .closed →
    ∃ before after, trace = before ++ .emitTerminal :: after ∧ .releaseSlot ∈ before

theorem traced_opening : Traced .opening [] := by
  refine ⟨lawful_nil, fun e => ?_, nofun⟩
  simp [Phase.known]

/-- **One rule keeps the trace explained.** -/
theorem Traced.next {phase phase' : Phase} {event : LogicalSessionEvent}
    {trace : List LogicalSessionEffect} {effects : LogicalSessionEffects}
    (ht : Traced phase trace) (h : Rules.next phase event = some (phase', effects)) :
    Traced phase' (trace ++ effects) := by
  have hx := Rules.next_explained phase event
  simp only [Rules.explained, h] at hx
  split at hx
  · simp at hx
  · next fine hf =>
    obtain ⟨hl, hk⟩ := Knowledge.lawful_of_learnAll ht.known ht.lawful hf
    refine ⟨hl, hk.of_covers hx, ?_⟩
    rintro rfl
    rcases Rules.next_closed h with ⟨hc, rfl⟩ | rfl
    · simpa using ht.closed hc
    · exact ⟨trace ++ [.releaseSlot], [], by simp, by simp⟩

namespace LogicalSessionMachine

/-- A refused event leaves the machine as it was. -/
theorem apply_of_error {m : LogicalSessionMachine} {event : LogicalSessionEvent} {error : Error}
    (h : (m.apply event).2 = .error error) : (m.apply event).1 = m := by
  unfold apply at h ⊢
  split at h <;> simp_all

/-- An accepted event is one rule. -/
theorem next_of_apply_ok {m : LogicalSessionMachine} {event : LogicalSessionEvent}
    {effects : LogicalSessionEffects} (h : (m.apply event).2 = .ok effects) :
    Rules.next m.phase event = some ((m.apply event).1.phase, effects) := by
  unfold apply at h ⊢
  split at h
  · simp at h
  · next phase' effects' hn =>
    simp only [Except.ok.injEq] at h
    simp [hn, h]

theorem traced_take {m : LogicalSessionMachine} {trace : List LogicalSessionEffect}
    (ht : Traced m.phase trace) (event : LogicalSessionEvent) :
    Traced (m.take event).1.phase (trace ++ (m.take event).2) := by
  unfold take
  split
  · next m' effects h =>
    have hok : (m.apply event).2 = .ok effects := by rw [h]
    have hn := next_of_apply_ok hok
    rw [h] at hn
    exact ht.next hn
  · next m' error h =>
    have hm : (m.apply event).1 = m := apply_of_error (by rw [h])
    rw [h] at hm
    obtain rfl : m' = m := hm
    simpa using ht

/-- **Every history is explained**, by induction on its events. -/
theorem traced_run {m : LogicalSessionMachine} {trace : List LogicalSessionEffect}
    (ht : Traced m.phase trace) (events : List LogicalSessionEvent) :
    Traced (m.run events).1.phase (trace ++ (m.run events).2) := by
  induction events generalizing m trace with
  | nil => simpa [run] using ht
  | cons event later ih =>
    rw [run]
    simpa using ih (traced_take ht event)

theorem phase_openMachine {serving requested : ℕ} {m : LogicalSessionMachine}
    (h : openMachine serving requested = .ok m) : m.phase = .opening := by
  unfold openMachine at h
  split at h
  · simp at h
  · split at h
    · simp at h
    · simp only [Except.ok.injEq] at h
      rw [← h]

/-- The terminal is in the trace exactly in the terminal states. -/
theorem terminal_iff_of_traced {m : LogicalSessionMachine} {trace : List LogicalSessionEffect}
    (ht : Traced m.phase trace) :
    (m.state = .closed ∨ m.state = .failed) ↔ .emitTerminal ∈ trace := by
  have hk := ht.known .emitTerminal
  unfold state
  cases hp : m.phase <;> simp_all [Phase.known, Phase.state]

/-- The reservation is held exactly until the slot's release. -/
theorem holdsReservation_iff_of_traced {m : LogicalSessionMachine}
    {trace : List LogicalSessionEffect} (ht : Traced m.phase trace) :
    m.holdsReservation = true ↔ .releaseSlot ∉ trace := by
  have hk := ht.known .releaseSlot
  unfold holdsReservation
  cases hp : m.phase <;> simp_all [Phase.known, Phase.holdsReservation]

/-- **The effects of every history of a session**, refused events among
them: seven occur at most once, each comes after what it must and never
after what it may not, the terminal is out exactly in a terminal state —
after the slot's release where the session closed — the reservation is
held exactly until that release, and a refused event changes nothing. -/
theorem run_effects_ordered {serving requested : ℕ} {m : LogicalSessionMachine}
    (hopen : openMachine serving requested = .ok m) (events : List LogicalSessionEvent) :
    let last := (m.run events).1
    let trace := (m.run events).2
    (∀ effect ∈ [LogicalSessionEffect.suppressOutput, .emitCancelAccepted, .requestCleanup,
        .emitReady, .startDrain, .releaseSlot, .emitTerminal], trace.count effect ≤ 1) ∧
    (∀ past future, trace = past ++ .emitCancelAccepted :: future →
      .emitReady ∈ past ∧ .emitTerminal ∉ past) ∧
    (∀ effect ∈ [LogicalSessionEffect.acceptInput, .emitReply, .startFinalize, .startDrain],
      ∀ past future, trace = past ++ effect :: future →
        .emitReady ∈ past ∧ .suppressOutput ∉ past ∧ .releaseSlot ∉ past ∧
          .emitTerminal ∉ past) ∧
    (∀ past future, trace = past ++ .releaseSlot :: future → .requestCleanup ∈ past) ∧
    ((last.state = .closed ∨ last.state = .failed) ↔ .emitTerminal ∈ trace) ∧
    (last.state = .closed →
      ∃ before after, trace = before ++ .emitTerminal :: after ∧ .releaseSlot ∈ before) ∧
    (last.holdsReservation = true ↔ .releaseSlot ∉ trace) ∧
    (∀ event error, (last.apply event).2 = .error error → (last.apply event).1 = last) := by
  intro last trace
  have hfirst : Traced m.phase [] := phase_openMachine hopen ▸ traced_opening
  have ht : Traced last.phase trace := by simpa using traced_run hfirst events
  have hl := ht.lawful
  refine ⟨?_, ?_, ?_, ?_, terminal_iff_of_traced ht, ?_, holdsReservation_iff_of_traced ht, ?_⟩
  · intro effect he
    exact hl.count_le_one fun past hp => hp.2 effect (once_neverFollows he)
  · intro past future hs
    have hp := hl past _ future hs
    exact ⟨hp.1 _ (by decide), hp.2 _ (by decide)⟩
  · intro effect he past future hs
    have hp := hl past _ future hs
    simp only [List.mem_cons, List.not_mem_nil, or_false] at he
    rcases he with rfl | rfl | rfl | rfl <;>
      exact ⟨hp.1 _ (by decide), hp.2 _ (by decide), hp.2 _ (by decide), hp.2 _ (by decide)⟩
  · intro past future hs
    exact (hl past _ future hs).1 _ (by decide)
  · intro hc
    refine ht.closed ?_
    revert hc
    unfold state
    cases last.phase <;> simp [Phase.state]
  · intro event error he
    exact apply_of_error he

/-- A session served, cancelled and released: its whole trace. -/
theorem run_effects_ordered_cancelled :
    openMachine 7 7 = .ok ⟨.opening, 7⟩ ∧
      ((LogicalSessionMachine.mk .opening 7).run
        [.admitted, .data, .cancel, .finalize, .releaseAcknowledged]).2 =
        [.emitReady, .acceptInput, .suppressOutput, .emitCancelAccepted, .requestCleanup,
          .releaseSlot, .emitTerminal] ∧
      (((LogicalSessionMachine.mk .opening 7).run
        [.admitted, .data, .cancel, .finalize, .releaseAcknowledged]).2.count .emitTerminal ≤ 1) :=
  have hopen : openMachine 7 7 = .ok ⟨.opening, 7⟩ := rfl
  ⟨hopen, by decide, (run_effects_ordered hopen
    [.admitted, .data, .cancel, .finalize, .releaseAcknowledged]).1 .emitTerminal (by decide)⟩

end LogicalSessionMachine

end Serving

end Tensorplate
