import Tensorplate.Lib.Runs
import Tensorplate.Session.Machine
import Tensorplate.Session.Model.Slot

/-!
# What a manager call does to a session

Every call is a path of four moves: the clock is read, input is charged,
credit is returned, or the machine accepts an event (`Took`). The calls
are inverted here once, so that a property of sessions is proved move by
move and never by unfolding a call.
-/

namespace Tensorplate

namespace Serving

open Lib

/-! ## Rules read off by event -/

namespace Rules

variable {phase phase' : Phase} {event : LogicalSessionEvent} {effects : LogicalSessionEffects}

/-- A property of every rule's answer is checked rule by rule. -/
theorem of_next (check : Phase → LogicalSessionEvent → Phase → LogicalSessionEffects → Bool)
    (hall : ∀ phase event, (next phase event).all (fun a => check phase event a.1 a.2) = true)
    (h : next phase event = some (phase', effects)) : check phase event phase' effects = true := by
  have := hall phase event
  rwa [h] at this

/-- Only the acknowledged release gives a slot back. -/
theorem event_of_releaseSlot (h : next phase event = some (phase', effects))
    (hr : .releaseSlot ∈ effects) : event = .releaseAcknowledged := by
  have hc := of_next (fun _ event _ effects =>
    !effects.contains .releaseSlot || event == .releaseAcknowledged)
    (by intro p e; cases p <;> cases e <;> rfl) h
  simpa [hr] using hc

/-- The events no phase refuses. -/
def neverRefused : LogicalSessionEvent → Bool
  | .fail | .abort | .backendReset | .drain | .cancel => true
  | _ => false

theorem next_of_neverRefused (phase : Phase) (h : neverRefused event = true) :
    (next phase event).isSome := by
  revert h
  cases phase <;> cases event <;> decide

end Rules

namespace Slot

variable {β : Type} {s s' : Slot β}

/-- **An event the machine accepted**: the entry before and after it, the
transition, and all the slot's other changes. -/
structure Took (s : Slot β) (event : LogicalSessionEvent) (entry : Entry)
    (transition : ManagedSessionTransition) (entry' : Entry) (s' : Slot β) : Prop where
  held : s.entry = some entry
  next : Rules.next entry.machine.phase event = some (entry'.machine.phase, transition.effects)
  generation : entry'.machine.generation = entry.machine.generation
  credit : entry'.credit = entry.credit
  timers : entry'.timers = (entry.timers.onClientActivity event (s.clock s.reads)).onTransition
    entry.machine.state event entry'.machine.state (s.clock s.reads)
  sessionKey : transition.sessionKey = s.key
  tells : transition.event = some event
  state : transition.state = entry'.machine.state
  usage : transition.status.inputCreditBytes = entry.credit.usage ∧
    transition.waitingSegments = entry.credit.waitingUsage
  key : s'.key = s.key
  clock : s'.clock = s.clock
  moments : s'.moments = s.moments ++
    [⟨s.key, event, entry.machine.phase, entry'.machine.phase, s.clock s.reads⟩]
  output : s'.output = if .suppressOutput ∈ transition.effects then s.output.suppress else s.output
  left : s'.entry = if .releaseSlot ∈ transition.effects then none else some entry'
  shown : s'.shown = s.shown ++
    if transition.effects ≠ [] ∨
        (event = .finalizeCompleted ∧ entry.machine.state ≠ entry'.machine.state)
    then [transition] else []

/-! ## The machine's answer -/

section Fields

variable (s : Slot β) (entry : Entry) (transition : ManagedSessionTransition) (announced : Bool)

@[simp] theorem emit_key : (s.emit transition announced).key = s.key := by
  unfold emit; split <;> rfl

@[simp] theorem emit_clock : (s.emit transition announced).clock = s.clock := by
  unfold emit; split <;> rfl

@[simp] theorem emit_reads : (s.emit transition announced).reads = s.reads := by
  unfold emit; split <;> rfl

@[simp] theorem emit_entry : (s.emit transition announced).entry = s.entry := by
  unfold emit; split <;> rfl

@[simp] theorem emit_output : (s.emit transition announced).output = s.output := by
  unfold emit; split <;> rfl

@[simp] theorem emit_moments : (s.emit transition announced).moments = s.moments := by
  unfold emit; split <;> rfl

@[simp] theorem emit_shown : (s.emit transition announced).shown =
    s.shown ++ if announced = true ∨ transition.effects ≠ [] then [transition] else [] := by
  unfold emit
  by_cases h : announced = true ∨ transition.effects ≠ []
  · simp_all
  · simp_all

@[simp] theorem releaseSlot_key : (s.releaseSlot entry transition).key = s.key := by
  unfold releaseSlot; split <;> rfl

@[simp] theorem releaseSlot_clock : (s.releaseSlot entry transition).clock = s.clock := by
  unfold releaseSlot; split <;> rfl

@[simp] theorem releaseSlot_output : (s.releaseSlot entry transition).output = s.output := by
  unfold releaseSlot; split <;> rfl

@[simp] theorem releaseSlot_moments : (s.releaseSlot entry transition).moments = s.moments := by
  unfold releaseSlot; split <;> rfl

@[simp] theorem releaseSlot_shown : (s.releaseSlot entry transition).shown = s.shown := by
  unfold releaseSlot; split <;> rfl

@[simp] theorem releaseSlot_entry : (s.releaseSlot entry transition).entry =
    if .releaseSlot ∈ transition.effects then none else s.entry := by
  unfold releaseSlot
  by_cases h : .releaseSlot ∈ transition.effects <;> simp [h, now]

end Fields

theorem applyLocked_none {entry : Entry} {event : LogicalSessionEvent} {cause : Option Error}
    (h : Rules.next entry.machine.phase event = none) :
    s.applyLocked entry event cause = (s, none) := by
  simp [applyLocked, LogicalSessionMachine.apply, h]

theorem applyLocked_eq_none {entry : Entry} {event : LogicalSessionEvent} {cause : Option Error}
    (h : s.applyLocked entry event cause = (s', none)) :
    s' = s ∧ Rules.next entry.machine.phase event = none := by
  cases hn : Rules.next entry.machine.phase event with
  | none =>
    rw [applyLocked_none hn] at h
    simp_all
  | some answer => simp [applyLocked, LogicalSessionMachine.apply, hn] at h

/-- **An accepted event**, shown to the sink as its caller does. -/
theorem took_of_applyLocked {entry entry' : Entry} {event : LogicalSessionEvent}
    {cause : Option Error} {transition : ManagedSessionTransition} (announced : Bool)
    (hs : s.entry = some entry)
    (h : s.applyLocked entry event cause = (s', some (entry', transition)))
    (ha : announced = (event == .finalizeCompleted && entry.machine.state != transition.state)) :
    s.Took event entry transition entry' ((s'.releaseSlot entry' transition).emit transition
      announced) := by
  cases hn : Rules.next entry.machine.phase event with
  | none =>
    rw [applyLocked_none hn] at h
    simp at h
  | some answer =>
    obtain ⟨phase, effects⟩ := answer
    simp only [applyLocked, LogicalSessionMachine.apply, hn, now, Prod.mk.injEq,
      Option.some.injEq] at h
    obtain ⟨rfl, rfl, rfl⟩ := h
    subst ha
    refine ⟨hs, hn, rfl, rfl, rfl, rfl, rfl, rfl, ⟨rfl, rfl⟩, ?_, ?_, ?_, ?_, ?_, ?_⟩ <;> simp [or_comm]

/-- An event that releases no slot and completes nothing is shown by its
effects alone. -/
theorem took_of_applyLocked_plain {entry entry' : Entry} {event : LogicalSessionEvent}
    {cause : Option Error} {transition : ManagedSessionTransition}
    (hs : s.entry = some entry)
    (h : s.applyLocked entry event cause = (s', some (entry', transition)))
    (hr : event ≠ .releaseAcknowledged) (hf : event ≠ .finalizeCompleted) :
    s.Took event entry transition entry' (s'.emit transition false) := by
  have ht := took_of_applyLocked false hs h (by simp [hf])
  have hkeep : s'.releaseSlot entry' transition = s' := by
    have hnot : .releaseSlot ∉ transition.effects := fun hm =>
      hr (Rules.event_of_releaseSlot ht.next hm)
    simp [releaseSlot, hnot]
  rwa [hkeep] at ht

/-- An event no phase refuses is accepted. -/
theorem applyLocked_of_neverRefused (s : Slot β) (entry : Entry) (cause : Option Error)
    {event : LogicalSessionEvent} (h : Rules.neverRefused event = true) :
    ∃ s' entry' transition,
      s.applyLocked entry event cause = (s', some (entry', transition)) := by
  obtain ⟨answer, hn⟩ := Option.isSome_iff_exists.1
    (Rules.next_of_neverRefused entry.machine.phase h)
  simp [applyLocked, LogicalSessionMachine.apply, hn]

/-! ## Moves -/

/-- **A change of the credit keeps its budgets**, and changes nothing where
it is refused. -/
structure Orderly (update : InputCredit → InputCredit × Except Error Unit) : Prop where
  budgets : ∀ credit, (update credit).1.budgets = credit.budgets
  refusal : ∀ credit credit' refusal, update credit = (credit', .error refusal) → credit' = credit

theorem orderly_charge (bytes : ℕ) : Orderly fun credit => credit.charge bytes := by
  constructor
  · intro credit
    unfold InputCredit.charge
    split
    · rfl
    · simp only
      split
      · rfl
      · split <;> rfl
  · intro credit credit' refusal h
    unfold InputCredit.charge at h
    split at h
    · simp_all
    · simp only at h
      split at h
      · simp_all
      · split at h <;> simp at h

theorem orderly_releaseAudio (chunks bytes : ℕ) :
    Orderly (InputCredit.releaseAudio chunks bytes) := by
  constructor
  · intro credit
    unfold InputCredit.releaseAudio
    split
    · rfl
    · split <;> rfl
  · intro credit credit' refusal h
    unfold InputCredit.releaseAudio at h
    split at h
    · simp_all
    · split at h <;> simp_all

theorem orderly_startSegment : Orderly InputCredit.startSegment := by
  constructor
  · intro credit
    unfold InputCredit.startSegment
    split
    · rfl
    · split
      · rfl
      · split <;> rfl
  · intro credit credit' refusal h
    unfold InputCredit.startSegment at h
    split at h
    · simp_all
    · split at h
      · simp_all
      · split at h <;> simp_all

theorem orderly_finishSegment : Orderly InputCredit.finishSegment := by
  constructor
  · intro credit
    unfold InputCredit.finishSegment
    split
    · rfl
    · split <;> rfl
  · intro credit credit' refusal h
    unfold InputCredit.finishSegment at h
    split at h
    · simp_all
    · split at h <;> simp_all

/-- The slot after a reading of the clock. -/
def looked (s : Slot β) : Slot β := { s with reads := s.reads + 1 }

/-- What a move was. -/
inductive Touch
  | looked
  | charged (bytes : ℕ)
  | credited
  | told (event : LogicalSessionEvent)

/-- **One move of a slot.** -/
inductive Move : Slot β → Touch → Slot β → Prop
  | looked (s : Slot β) : Move s .looked s.looked
  | charged {s : Slot β} {entry : Entry} {bytes : ℕ} {credit : InputCredit} :
    s.entry = some entry → entry.credit.charge bytes = (credit, .ok ()) →
    Move s (.charged bytes) { s with entry := some { entry with credit := credit } }
  | credited {s : Slot β} {entry : Entry} {credit : InputCredit}
      {status : ManagedSessionTransition} :
    s.entry = some entry → credit.budgets = entry.credit.budgets →
    status.sessionKey = s.key → status.event = none → status.effects = [] →
    Move s .credited { s with
      entry := some { entry with credit := credit }
      shown := s.shown ++ [status] }
  | told {s s' : Slot β} {event : LogicalSessionEvent} {entry entry' : Entry}
      {transition : ManagedSessionTransition} :
    s.Took event entry transition entry' s' → Move s (.told event) s'

/-- A slot is what it holds. -/
theorem with_entry {entry : Entry} (hs : s.entry = some entry) :
    { s with entry := some entry } = s := by
  cases s
  simp_all

/-- A failure is accepted whatever the phase. -/
theorem took_fail {entry : Entry} (hs : s.entry = some entry) (cause : Option Error) :
    ∃ s' transition entry', s.applyLocked entry .fail cause = (s', some (entry', transition)) ∧
      s.Took .fail entry transition entry' ((s'.releaseSlot entry' transition).emit transition
        false) := by
  obtain ⟨s', entry', transition, h⟩ := applyLocked_of_neverRefused s entry cause
    (show Rules.neverRefused .fail = true from rfl)
  exact ⟨s', transition, entry', h, took_of_applyLocked _ hs h (by simp)⟩

/-- **An event past its deadlines' check**, without input to charge: the
machine accepts it, or refuses it and the session is failed. -/
theorem applyUnexpired_cases {entry : Entry} (hs : s.entry = some entry)
    (event : LogicalSessionEvent) (cause : Option Error) :
    (∃ transition entry', s.Took event entry transition entry'
        (s.applyUnexpired entry event cause none).1 ∧
      (s.applyUnexpired entry event cause none).2 = .ok transition) ∨
    (Rules.next entry.machine.phase event = none ∧
      ∃ transition entry' refusal, s.Took .fail entry transition entry'
        (s.applyUnexpired entry event cause none).1 ∧
      (s.applyUnexpired entry event cause none).2 = .error refusal) := by
  unfold applyUnexpired
  simp only [with_entry hs]
  rcases h : s.applyLocked entry event cause with ⟨s₁, _ | ⟨entry', transition⟩⟩
  · obtain ⟨rfl, hn⟩ := applyLocked_eq_none h
    obtain ⟨s₂, failed, entry₂, hf, ht⟩ := took_fail hs
      (some (refusedEvent entry.machine.state event))
    right
    refine ⟨hn, failed, entry₂, refusedEvent entry.machine.state event, ?_, ?_⟩
    · simpa [hf] using ht
    · simp only [hf]
  · left
    refine ⟨transition, entry', ?_, ?_⟩
    · simp only
      exact took_of_applyLocked _ hs h (by simp)
    · simp only

/-- Input the machine takes, with the effect of taking it or, in a drain,
without. -/
theorem next_data {phase phase' : Phase} {effects : LogicalSessionEffects}
    (h : Rules.next phase .data = some (phase', effects)) :
    phase' = phase ∧ (effects = [.acceptInput] ∨ effects = []) := by
  have hc := Rules.of_next (fun phase event phase' effects =>
    !(event == .data) || (phase' == phase && (effects == [.acceptInput] || effects == [])))
    (by intro p e; cases p <;> cases e <;> rfl) h
  simpa using hc

/-- Input the credit lets through is applied like any event. -/
theorem applyUnexpired_charged {entry entry' : Entry} {event : LogicalSessionEvent}
    {cause : Option Error} {bytes : ℕ} (h : chargeAcceptedInput entry bytes = (entry', none))
    (hstate : entry'.machine = entry.machine) :
    s.applyUnexpired entry event cause (some bytes) =
      { s with entry := some entry' }.applyUnexpired entry' event cause none := by
  simp only [applyUnexpired, h, hstate]

/-- Input the credit refuses fails the session. -/
theorem applyUnexpired_overdrawn {entry : Entry} {event : LogicalSessionEvent}
    {cause : Option Error} {bytes : ℕ} {refusal : Error} (hs : s.entry = some entry)
    (h : chargeAcceptedInput entry bytes = (entry, some refusal)) :
    ∃ transition entry' refusal, s.Took .fail entry transition entry'
        (s.applyUnexpired entry event cause (some bytes)).1 ∧
      (s.applyUnexpired entry event cause (some bytes)).2 = .error refusal := by
  obtain ⟨s', failed, entry', hf, ht⟩ := took_fail hs (some refusal)
  refine ⟨failed, entry', refusal, ?_, ?_⟩
  · simpa [applyUnexpired, h, with_entry hs, hf] using ht
  · simp [applyUnexpired, h, with_entry hs, hf]

/-- **Input past the deadlines' check**: charged and taken; ignored by a
drain, uncharged; or refused, by the machine or the credit, and the
session failed. -/
theorem applyUnexpired_data_cases {entry : Entry} (hs : s.entry = some entry) (bytes : ℕ) :
    (∃ credit mid transition entry', entry.credit.charge bytes = (credit, .ok ()) ∧
      mid = { s with entry := some { entry with credit := credit } } ∧
      mid.Took .data { entry with credit := credit } transition entry'
        (s.applyUnexpired entry .data none (some bytes)).1 ∧
      transition.effects = [.acceptInput] ∧
      (s.applyUnexpired entry .data none (some bytes)).2 = .ok transition) ∨
    (∃ transition entry', s.Took .data entry transition entry'
        (s.applyUnexpired entry .data none (some bytes)).1 ∧
      transition.effects = [] ∧
      (s.applyUnexpired entry .data none (some bytes)).2 = .ok transition) ∨
    (∃ transition entry' refusal, s.Took .fail entry transition entry'
        (s.applyUnexpired entry .data none (some bytes)).1 ∧
      (s.applyUnexpired entry .data none (some bytes)).2 = .error refusal) := by
  cases hn : Rules.next entry.machine.phase .data with
  | none =>
    have hcharge : chargeAcceptedInput entry bytes = (entry, none) := by
      simp [chargeAcceptedInput, LogicalSessionMachine.apply, hn]
    rw [applyUnexpired_charged hcharge rfl, with_entry hs]
    rcases applyUnexpired_cases hs .data none with ⟨transition, entry', ht, -⟩ | ⟨-, hfail⟩
    · have := ht.next
      simp [hn] at this
    · exact .inr (.inr hfail)
  | some answer =>
    obtain ⟨phase, effects⟩ := answer
    rcases (next_data hn).2 with rfl | rfl
    · rcases hc : entry.credit.charge bytes with ⟨credit, refusal | ⟨⟩⟩
      · obtain rfl := (orderly_charge bytes).refusal _ _ _ hc
        have hcharge : chargeAcceptedInput entry bytes = (entry, some refusal) := by
          simp [chargeAcceptedInput, LogicalSessionMachine.apply, hn, hc]
        exact .inr (.inr (applyUnexpired_overdrawn hs hcharge))
      · have hcharge : chargeAcceptedInput entry bytes =
            ({ entry with credit := credit }, none) := by
          simp [chargeAcceptedInput, LogicalSessionMachine.apply, hn, hc]
        left
        refine ⟨credit, { s with entry := some { entry with credit := credit } }, ?_⟩
        rw [applyUnexpired_charged hcharge rfl]
        rcases applyUnexpired_cases (s := { s with entry := some { entry with credit := credit } })
          rfl .data none with ⟨transition, entry', ht, hok⟩ | ⟨hnone, -⟩
        · have hx := ht.next
          simp only [hn, Option.some.injEq, Prod.mk.injEq] at hx
          exact ⟨transition, entry', rfl, rfl, ht, hx.2.symm, hok⟩
        · simp [hn] at hnone
    · have hcharge : chargeAcceptedInput entry bytes = (entry, none) := by
        simp [chargeAcceptedInput, LogicalSessionMachine.apply, hn]
      rw [applyUnexpired_charged hcharge rfl, with_entry hs]
      rcases applyUnexpired_cases hs .data none with ⟨transition, entry', ht, hok⟩ | ⟨hnone, -⟩
      · have hx := ht.next
        simp only [hn, Option.some.injEq, Prod.mk.injEq] at hx
        exact .inr (.inl ⟨transition, entry', ht, hx.2.symm, hok⟩)
      · simp [hn] at hnone

/-! ## Calls -/

/-- The deadline a session has missed at the next reading of the clock. -/
def expiry (s : Slot β) (entry : Entry) : Option SessionExpiry :=
  entry.timers.expired (s.clock s.reads) entry.machine.state s.output.stalledSince

/-- **The deadlines' check of a call**: the clock is read, and a session
whose deadline has passed is aborted. -/
inductive Checked (s : Slot β) (entry : Entry) : Entry → Slot β → Prop
  | unexpired : s.expiry entry = none → Checked s entry entry s.looked
  | aborted {expiry : SessionExpiry} {transition : ManagedSessionTransition} {entry' : Entry}
      {locked s' : Slot β} : s.expiry entry = some expiry →
    s.looked.applyLocked entry .abort (some (entry.expiryCause expiry)) =
      (locked, some (entry', transition)) →
    s.looked.Took .abort entry transition entry' s' → Checked s entry entry' s'

/-- What a session is left with by an event that releases nothing. -/
theorem Took.entry_of_ne {event : LogicalSessionEvent} {entry entry' : Entry}
    {transition : ManagedSessionTransition} (h : s.Took event entry transition entry' s')
    (he : event ≠ .releaseAcknowledged) : s'.entry = some entry' := by
  have hnot : .releaseSlot ∉ transition.effects := fun hm =>
    he (Rules.event_of_releaseSlot h.next hm)
  simpa [hnot] using h.left

theorem Checked.entry {entry entry' : Entry} (hs : s.entry = some entry)
    (h : s.Checked entry entry' s') : s'.entry = some entry' := by
  cases h with
  | unexpired => exact hs
  | aborted _ _ ht => exact ht.entry_of_ne (by simp)

theorem missingSessionLocked_fst (s : Slot β) : s.missingSessionLocked.1 = s.looked := by
  unfold missingSessionLocked now looked
  simp only
  split <;> rfl

theorem applyEvent_missing (hs : s.entry = none) (event : LogicalSessionEvent)
    (cause : Option Error) (bytes : Option ℕ) :
    (s.applyEvent event cause bytes).1 = s.looked ∧
      ∃ missing, (s.applyEvent event cause bytes).2 = .error missing := by
  simp only [applyEvent, hs]
  exact ⟨missingSessionLocked_fst s, _, rfl⟩

/-- The abort of a session past its deadline. -/
theorem took_abort {entry : Entry} (hs : s.entry = some entry) (cause : Option Error) :
    ∃ s' transition entry', s.applyLocked entry .abort cause = (s', some (entry', transition)) ∧
      s.Took .abort entry transition entry' (s'.emit transition false) := by
  obtain ⟨s', entry', transition, h⟩ := applyLocked_of_neverRefused s entry cause
    (show Rules.neverRefused .abort = true from rfl)
  exact ⟨s', transition, entry', h, took_of_applyLocked_plain hs h (by simp) (by simp)⟩

/-- **A call past its deadlines' check**: it continues, or its client's
event, or an acknowledgement nobody asked for, ends with the abort. -/
theorem applyEvent_checked {entry : Entry} (hs : s.entry = some entry)
    (event : LogicalSessionEvent) (cause : Option Error) (bytes : Option ℕ) :
    ∃ entry' mid, s.Checked entry entry' mid ∧
      (s.applyEvent event cause bytes = mid.applyUnexpired entry' event cause bytes ∨
        (s.expiry entry ≠ none ∧ (event.isClientEvent = true ∨ event = .releaseAcknowledged ∧
            Rules.next entry.machine.phase event = none) ∧
          ∃ refusal, s.applyEvent event cause bytes = (mid, .error refusal))) := by
  cases hx : s.expiry entry with
  | none =>
    refine ⟨entry, s.looked, .unexpired hx, .inl ?_⟩
    have hexp : s.expiryLocked entry = (s.looked, none) := by
      simp only [expiryLocked, now, ← hx]
      rfl
    simp only [applyEvent, hs, hexp]
  | some expiry =>
    have hexp : s.expiryLocked entry = (s.looked, some expiry) := by
      simp only [expiryLocked, now, ← hx]
      rfl
    obtain ⟨s', transition, entry', happ, ht⟩ := took_abort (show s.looked.entry = some entry from hs)
      (some (entry.expiryCause expiry))
    refine ⟨entry', s'.emit transition false, .aborted hx happ ht, ?_⟩
    simp only [applyEvent, hs, hexp, happ]
    by_cases hclient : event.isClientEvent = true
    · exact .inr ⟨by simp, .inl hclient, entry.expiryCause expiry, by simp [hclient]⟩
    · simp only [hclient, Bool.false_eq_true, if_false]
      by_cases hr : event = .releaseAcknowledged
      · subst hr
        cases hn : Rules.next entry.machine.phase .releaseAcknowledged with
        | none =>
          refine .inr ⟨by simp, .inr ⟨rfl, rfl⟩,
            refusedEvent entry.machine.state .releaseAcknowledged, ?_⟩
          simp [LogicalSessionMachine.apply, hn]
        | some answer =>
          left
          simp [LogicalSessionMachine.apply, hn]
      · left
        simp [hr]

/-- **A change of the credit**: made and shown, or refused as a defect and
the session failed. -/
theorem updateCredit_cases {entry : Entry} (hs : s.entry = some entry)
    {update : InputCredit → InputCredit × Except Error Unit} (hu : Orderly update) :
    (∃ credit status, update entry.credit = (credit, .ok ()) ∧
      (status.sessionKey = s.key ∧ status.event = none ∧ status.effects = []) ∧
      s.updateCredit update = ({ s with
        entry := some { entry with credit := credit }
        shown := s.shown ++ [status] }, .ok status.status)) ∨
    (∃ transition entry' defect, update entry.credit = (entry.credit, .error defect) ∧
      s.Took .fail entry transition entry' (s.updateCredit update).1 ∧
      (s.updateCredit update).2 = .error defect) := by
  rcases hup : update entry.credit with ⟨credit, defect | ⟨⟩⟩
  · obtain rfl := hu.refusal _ _ _ hup
    obtain ⟨s', entry', transition, happ⟩ := applyLocked_of_neverRefused s entry (some defect)
      (show Rules.neverRefused .fail = true from rfl)
    right
    refine ⟨transition, entry', defect, rfl, ?_, ?_⟩
    · simpa only [updateCredit, hs, hup, with_entry hs, happ] using
        took_of_applyLocked_plain hs happ (by simp) (by simp)
    · simp only [updateCredit, hs, hup, with_entry hs, happ]
  · left
    refine ⟨credit, {
      sessionKey := s.key
      event := none
      state := entry.machine.state
      effects := []
      cause := entry.cause
      status := s.statusOf { entry with credit := credit }
      waitingSegments := credit.waitingUsage }, rfl, ⟨rfl, rfl, rfl⟩, ?_⟩
    simp only [updateCredit, hs, hup, emit, Bool.true_or, if_true]
    rfl

/-- **An event the manager took**, once its deadlines were checked. -/
theorem apply_ok {event : LogicalSessionEvent} {cause : Option Error}
    {transition : ManagedSessionTransition} (h : s.apply event cause = (s', .ok transition)) :
    ∃ entry checked mid entry', s.entry = some entry ∧ s.Checked entry checked mid ∧
      mid.Took event checked transition entry' s' := by
  have heq : s.applyEvent event cause none = (s', .ok transition) := by
    unfold apply at h
    split at h
    · simp at h
    · split at h
      · simp at h
      · exact h
  cases hs : s.entry with
  | none =>
    obtain ⟨-, missing, hmissing⟩ := applyEvent_missing hs event cause none
    rw [heq] at hmissing
    simp at hmissing
  | some entry =>
    obtain ⟨checked, mid, hc, happ | ⟨-, -, refusal, happ⟩⟩ :=
      applyEvent_checked hs event cause none
    · rw [heq] at happ
      rcases applyUnexpired_cases (hc.entry hs) event cause with
        ⟨t, entry', ht, hok⟩ | ⟨-, _, _, refusal, -, herr⟩
      · rw [← happ] at ht hok
        simp only [Except.ok.injEq] at hok
        subst hok
        exact ⟨entry, checked, mid, entry', rfl, hc, ht⟩
      · rw [← happ] at herr
        simp at herr
    · rw [heq] at happ
      simp at happ

/-- After an abort every report is taken. -/
theorem next_of_aborted {phase phase' : Phase} {event : LogicalSessionEvent}
    {effects : LogicalSessionEffects} (h : Rules.next phase .abort = some (phase', effects))
    (hclient : event.isClientEvent = false) (hn : (Rules.next phase event).isSome) :
    (Rules.next phase' event).isSome := by
  have hto : phase' = if Rules.outcomeFixed phase then phase else .cancelRequested := by
    have hc := Rules.of_next (fun phase event phase' _ => !(event == .abort) ||
      phase' == if Rules.outcomeFixed phase then phase else .cancelRequested)
      (by intro p e; cases p <;> cases e <;> rfl) h
    simpa using hc
  subst hto
  split
  · exact hn
  · revert hclient
    cases event <;> decide

/-- **A report whose phase permits it is taken**, whatever deadline has
passed. One that ends a session comes with its cause. -/
theorem apply_permitted {event : LogicalSessionEvent} {cause : Option Error} {entry : Entry}
    (hs : s.entry = some entry) (hn : (Rules.next entry.machine.phase event).isSome)
    (hclient : event.isClientEvent = false)
    (hcause : event = .abort ∨ event = .fail ∨ event = .backendReset → cause ≠ none) :
    ∃ transition, (s.apply event cause).2 = .ok transition := by
  have heq : s.apply event cause = s.applyEvent event cause none := by
    unfold apply
    rw [if_neg (fun hbad => hcause hbad.1 hbad.2), if_neg]
    rintro rfl
    simp [LogicalSessionEvent.isClientEvent] at hclient
  rw [heq]
  obtain ⟨checked, mid, hc, happ | ⟨-, hbad | ⟨-, hbad⟩, -⟩⟩ := applyEvent_checked hs event cause none
  · have hnext : (Rules.next checked.machine.phase event).isSome := by
      cases hc with
      | unexpired => exact hn
      | aborted _ _ ht => exact next_of_aborted ht.next hclient hn
    rcases applyUnexpired_cases (hc.entry hs) event cause with
      ⟨transition, _, -, hok⟩ | ⟨hnone, -⟩
    · exact ⟨transition, by rw [happ, hok]⟩
    · simp [hnone] at hnext
  · simp [hbad] at hclient
  · simp [hbad] at hn

/-! ## Every call is a path of moves -/

/-- A path of moves, each of an allowed kind. -/
abbrev Leads (allowed : Touch → Prop) (s s' : Slot β) : Prop := Lib.Leads Move allowed s s'

/-- The moves every call may make. -/
structure Ordinary (allowed : Touch → Prop) : Prop where
  looked : allowed .looked
  abort : allowed (.told .abort)
  fail : allowed (.told .fail)

section Calls

variable {allowed : Touch → Prop} (ho : Ordinary allowed)
include ho

theorem leads_looked (s : Slot β) : Leads allowed s s.looked := .single (.looked s) ho.looked

theorem leads_checked {entry entry' : Entry} (h : s.Checked entry entry' s') :
    Leads allowed s s' := by
  cases h with
  | unexpired => exact leads_looked ho s
  | aborted _ _ ht => exact (leads_looked ho s).trans (.single (.told ht) ho.abort)

theorem leads_applyEvent (s : Slot β) (event : LogicalSessionEvent) (cause : Option Error)
    (he : allowed (.told event)) : Leads allowed s (s.applyEvent event cause none).1 := by
  cases hs : s.entry with
  | none =>
    rw [(applyEvent_missing hs event cause none).1]
    exact leads_looked ho s
  | some entry =>
    obtain ⟨entry', mid, hc, heq | ⟨-, -, refusal, heq⟩⟩ := applyEvent_checked hs event cause none
    · rw [heq]
      refine (leads_checked ho hc).trans ?_
      rcases applyUnexpired_cases (hc.entry hs) event cause with
        ⟨_, _, ht, -⟩ | ⟨-, _, _, _, ht, -⟩
      · exact .single (.told ht) he
      · exact .single (.told ht) ho.fail
    · rw [heq]
      exact leads_checked ho hc

theorem leads_apply (s : Slot β) (event : LogicalSessionEvent) (cause : Option Error)
    (he : allowed (.told event)) : Leads allowed s (s.apply event cause).1 := by
  unfold apply
  split
  · exact .refl s
  · split
    · exact .refl s
    · exact leads_applyEvent ho s event cause he

theorem leads_acceptInput (s : Slot β) (bytes : ℕ) (he : allowed (.told .data))
    (hb : allowed (.charged bytes)) : Leads allowed s (s.acceptInput bytes).1 := by
  unfold acceptInput
  cases hs : s.entry with
  | none =>
    rw [(applyEvent_missing hs .data none (some bytes)).1]
    exact leads_looked ho s
  | some entry =>
    obtain ⟨entry', mid, hc, heq | ⟨-, -, refusal, heq⟩⟩ :=
      applyEvent_checked hs .data none (some bytes)
    · rw [heq]
      refine (leads_checked ho hc).trans ?_
      have hm := hc.entry hs
      rcases applyUnexpired_data_cases hm bytes with
        ⟨_, _, _, _, hcharge, rfl, ht, -, -⟩ | ⟨_, _, ht, -, -⟩ | ⟨_, _, _, ht, -⟩
      · exact Leads.trans (.single (.charged hm hcharge) hb) (.single (.told ht) he)
      · exact .single (.told ht) he
      · exact .single (.told ht) ho.fail
    · rw [heq]
      exact leads_checked ho hc

theorem leads_checkGeneration (s : Slot β) (generation : ℕ) :
    Leads allowed s (s.checkGeneration generation).1 := by
  unfold checkGeneration
  split
  · simp only [missingSessionLocked_fst]
    exact leads_looked ho s
  · split
    · exact .refl s
    · exact leads_applyEvent ho s .fail _ ho.fail

omit ho in
theorem leads_drain (s : Slot β) (cause : Error) (hd : allowed (.told .drain)) :
    Leads allowed s (s.drain cause) := by
  unfold drain
  split
  · exact .refl s
  · next entry hs =>
    split
    · next s' entry' transition h =>
      exact .single (.told (took_of_applyLocked_plain hs h (by simp) (by simp))) hd
    · next s' h =>
      obtain ⟨rfl, -⟩ := applyLocked_eq_none h
      exact .refl _

theorem leads_sweep (s : Slot β) : Leads allowed s s.sweep := by
  unfold sweep
  split
  · exact .refl s
  · next entry hs =>
    have hlook : (s.expiryLocked entry).1 = s.looked := rfl
    split
    · next s' h =>
      rw [h] at hlook
      rw [show s' = s.looked from hlook]
      exact leads_looked ho s
    · next s' expiry h =>
      rw [h] at hlook
      obtain rfl : s' = s.looked := hlook
      obtain ⟨s₂, transition, entry', happ, ht⟩ :=
        took_abort (show s.looked.entry = some entry from hs) (some (entry.expiryCause expiry))
      simp only [happ]
      exact (leads_looked ho s).trans (.single (.told ht) ho.abort)

theorem leads_updateCredit (s : Slot β)
    {update : InputCredit → InputCredit × Except Error Unit} (hu : Orderly update)
    (hc : allowed .credited) : Leads allowed s (s.updateCredit update).1 := by
  cases hs : s.entry with
  | none =>
    simp only [updateCredit, hs, missingSessionLocked_fst]
    exact leads_looked ho s
  | some entry =>
    rcases updateCredit_cases hs hu with ⟨_, _, hup, ⟨hk, he, hf⟩, heq⟩ | ⟨_, _, _, -, ht, -⟩
    · rw [heq]
      have hb := hu.budgets entry.credit
      rw [hup] at hb
      exact .single (.credited hs hb hk he hf) hc
    · exact .single (.told ht) ho.fail

/-- **A session just made is admitted or failed.** -/
theorem leads_admission (s : Slot β) {entry : Entry} (initialized : Except Error Unit)
    (hs : s.entry = some entry) (hopening : entry.machine.phase = .opening)
    (ha : allowed (.told .admitted)) : Leads allowed s (s.admission entry initialized).1 := by
  have hfail : ∀ (s' : Slot β) (failure : Error), s'.entry = some entry → Leads allowed s s' →
      ∃ s₂ entry' transition, s'.applyLocked entry .fail (some failure) =
        (s₂, some (entry', transition)) ∧ Leads allowed s (s₂.emit transition false) := by
    intro s' failure hs' hl
    obtain ⟨s₂, entry', transition, happ⟩ := applyLocked_of_neverRefused s' entry (some failure)
      (show Rules.neverRefused .fail = true from rfl)
    refine ⟨s₂, entry', transition, happ, ?_⟩
    exact hl.trans (.single (.told (took_of_applyLocked_plain hs' happ (by simp) (by simp))) ho.fail)
  unfold admission
  rcases initialized with failure | ⟨⟩
  · obtain ⟨s₂, entry', transition, happ, hl⟩ := hfail s failure hs (.refl s)
    simp only [happ]
    exact hl
  · rcases hx : s.expiryLocked entry with ⟨s', _ | expiry⟩
    · obtain rfl : s' = s.looked := (congrArg Prod.fst hx).symm
      simp only
      rcases happ : s.looked.applyLocked entry .admitted none with ⟨s₂, _ | ⟨entry', transition⟩⟩
      · have hn := (applyLocked_eq_none happ).2
        simp +decide [hopening] at hn
      · exact (leads_looked ho s).trans (.single (.told (took_of_applyLocked_plain hs happ
          (by simp) (by simp))) ha)
    · obtain rfl : s' = s.looked := (congrArg Prod.fst hx).symm
      obtain ⟨s₂, entry', transition, happ, hl⟩ :=
        hfail s.looked (expiryError expiry) hs (leads_looked ho s)
      simp only [happ]
      exact hl

end Calls

/-! ## Sessions whose outcome is fixed -/

/-- **The session is gone, or its outcome is fixed.** -/
def Over (s : Slot β) : Prop :=
  ∀ entry, s.entry = some entry → Rules.outcomeFixed entry.machine.phase = true

theorem over_of_missing (hs : s.entry = none) : s.looked.Over := by
  intro entry hentry
  rw [looked, hs] at hentry
  simp at hentry

/-- The events that fix an outcome. -/
def ending : LogicalSessionEvent → Bool
  | .fail | .abort | .backendReset | .cancel => true
  | _ => false

theorem Took.isOver {event : LogicalSessionEvent} {entry entry' : Entry}
    {transition : ManagedSessionTransition} (h : s.Took event entry transition entry' s')
    (hend : Rules.outcomeFixed entry.machine.phase = true ∨ ending event = true) : s'.Over := by
  intro last hlast
  rw [h.left] at hlast
  split at hlast
  · simp at hlast
  · simp only [Option.some.injEq] at hlast
    subst hlast
    have hc := Rules.of_next (fun phase event phase' _ =>
      !(Rules.outcomeFixed phase || ending event) || Rules.outcomeFixed phase')
      (by intro p e; cases p <;> cases e <;> rfl) h.next
    rcases hend with hend | hend <;> simpa [hend] using hc

/-- An outcome stays fixed. -/
theorem Over.leads {allowed : Touch → Prop} (h : Leads allowed s s') (hs : s.Over) : s'.Over := by
  refine h.invariant hs fun s₁ touch s₂ _ ho hm => ?_
  cases hm with
  | looked => exact ho
  | charged hentry _ =>
    intro entry he
    obtain rfl := Option.some.inj he
    have hfixed := ho _ hentry
    exact hfixed
  | credited hentry _ _ _ _ =>
    intro entry he
    obtain rfl := Option.some.inj he
    have hfixed := ho _ hentry
    exact hfixed
  | told ht => exact ht.isOver (.inl (ho _ ht.held))

/-- **A report that was refused** leaves no session, or a failed one. -/
theorem over_of_apply_error {event : LogicalSessionEvent} {cause : Option Error} {refusal : Error}
    (h : s.apply event cause = (s', .error refusal)) (hclient : event.isClientEvent = false)
    (hcause : event = .abort ∨ event = .fail ∨ event = .backendReset → cause ≠ none) : s'.Over := by
  have heq : s.applyEvent event cause none = (s', .error refusal) := by
    rwa [apply, if_neg (fun hbad => hcause hbad.1 hbad.2), if_neg] at h
    rintro rfl
    simp [LogicalSessionEvent.isClientEvent] at hclient
  cases hs : s.entry with
  | none =>
    have hlooked := (applyEvent_missing hs event cause none).1
    rw [heq] at hlooked
    obtain rfl : s' = s.looked := hlooked
    exact over_of_missing hs
  | some entry =>
    obtain ⟨checked, mid, hc, happ | ⟨hexpired, -, _, happ⟩⟩ :=
      applyEvent_checked hs event cause none
    · rw [heq] at happ
      rcases applyUnexpired_cases (hc.entry hs) event cause with
        ⟨_, _, -, hok⟩ | ⟨-, _, _, _, ht, -⟩
      · rw [← happ] at hok
        simp at hok
      · rw [← happ] at ht
        exact ht.isOver (.inr rfl)
    · rw [heq] at happ
      obtain rfl := (Prod.mk.inj happ).1
      cases hc with
      | unexpired hnone => exact absurd hnone hexpired
      | aborted _ _ ht => exact ht.isOver (.inr rfl)

/-- **A report that ends the session** does. -/
theorem over_of_apply_ending {event : LogicalSessionEvent} (hend : ending event = true)
    (hclient : event.isClientEvent = false) (cause : Error) :
    (s.apply event (some cause)).1.Over := by
  rcases h : s.apply event (some cause) with ⟨s', refusal | transition⟩
  · exact over_of_apply_error h hclient (by simp)
  · obtain ⟨_, _, _, _, -, -, ht⟩ := apply_ok h
    exact ht.isOver (.inr hend)

/-- **A credit that was refused** leaves no session, or a failed one. -/
theorem over_of_updateCredit_error {update : InputCredit → InputCredit × Except Error Unit}
    {defect : Error} (hu : Orderly update) (h : s.updateCredit update = (s', .error defect)) :
    s'.Over := by
  cases hs : s.entry with
  | none =>
    have hlooked : (s.updateCredit update).1 = s.looked := by
      simp only [updateCredit, hs, missingSessionLocked_fst]
    rw [h] at hlooked
    obtain rfl : s' = s.looked := hlooked
    exact over_of_missing hs
  | some entry =>
    rcases updateCredit_cases hs hu with ⟨_, _, -, -, heq⟩ | ⟨_, _, _, -, ht, -⟩
    · rw [heq] at h
      simp at h
    · rw [h] at ht
      exact ht.isOver (.inr rfl)

end Slot

end Serving

end Tensorplate
