import Tensorplate.Session.Model.Manager
import Tensorplate.Session.OutputQueue
import Tensorplate.Session.Slot

/-!
# Every sequence of manager calls

A manager call moves the slot it names and leaves the others apart. A
property of slots that an opening establishes, that every move keeps and
that the calls of other sessions cannot disturb therefore holds of every
key after every sequence of calls (`Slot.Kept`, `SessionManager.kept`).
-/

namespace Tensorplate

namespace Serving

open Lib

namespace Slot

variable {β : Type} {s s' s₁ s₂ s₃ : Slot β}

/-! ## What moves touch -/

/-- No call of this session was ever shown or recorded. -/
structure Fresh (s : Slot β) : Prop where
  entry : s.entry = none
  shown : ∀ t ∈ s.shown, t.sessionKey ≠ s.key
  moments : ∀ m ∈ s.moments, m.key ≠ s.key

/-- **Other sessions were served**: this one's entry is the same, and what
was shown and recorded meanwhile is theirs. The stream may have worked on
the output queue. -/
structure Apart (s s' : Slot β) : Prop where
  key : s'.key = s.key
  clock : s'.clock = s.clock
  entry : s'.entry = s.entry
  shown : ∃ others, s'.shown = s.shown ++ others ∧ ∀ t ∈ others, t.sessionKey ≠ s.key
  moments : ∃ others, s'.moments = s.moments ++ others ∧ ∀ m ∈ others, m.key ≠ s.key

/-- **This session was served**: what was shown and recorded is its own,
and nothing is where there is no session. -/
structure Own (s s' : Slot β) : Prop where
  key : s'.key = s.key
  clock : s'.clock = s.clock
  shown : ∃ own, s'.shown = s.shown ++ own ∧ ∀ t ∈ own, t.sessionKey = s.key
  moments : ∃ own, s'.moments = s.moments ++ own ∧ ∀ m ∈ own, m.key = s.key
  missing : s.entry = none → s'.entry = none ∧ s'.shown = s.shown ∧ s'.moments = s.moments

theorem Own.refl (s : Slot β) : Own s s :=
  ⟨rfl, rfl, ⟨[], by simp⟩, ⟨[], by simp⟩, fun h => ⟨h, rfl, rfl⟩⟩

theorem Own.trans (h₁ : Own s₁ s₂) (h₂ : Own s₂ s₃) : Own s₁ s₃ := by
  obtain ⟨own₁, hs₁, hk₁⟩ := h₁.shown
  obtain ⟨own₂, hs₂, hk₂⟩ := h₂.shown
  obtain ⟨new₁, hm₁, hn₁⟩ := h₁.moments
  obtain ⟨new₂, hm₂, hn₂⟩ := h₂.moments
  refine ⟨h₂.key.trans h₁.key, h₂.clock.trans h₁.clock, ⟨own₁ ++ own₂, ?_, ?_⟩,
    ⟨new₁ ++ new₂, ?_, ?_⟩, fun h => ?_⟩
  · rw [hs₂, hs₁, List.append_assoc]
  · intro t ht
    rcases List.mem_append.1 ht with ht | ht
    · exact hk₁ t ht
    · exact (hk₂ t ht).trans h₁.key
  · rw [hm₂, hm₁, List.append_assoc]
  · intro m hm
    rcases List.mem_append.1 hm with hm | hm
    · exact hn₁ m hm
    · exact (hn₂ m hm).trans h₁.key
  · obtain ⟨he₁, hsh₁, hmo₁⟩ := h₁.missing h
    obtain ⟨he₂, hsh₂, hmo₂⟩ := h₂.missing he₁
    exact ⟨he₂, hsh₂.trans hsh₁, hmo₂.trans hmo₁⟩

theorem Own.of_move {touch : Touch} (h : Move s touch s') : Own s s' := by
  cases h with
  | looked => exact ⟨rfl, rfl, ⟨[], by simp [looked]⟩, ⟨[], by simp [looked]⟩, fun h => ⟨h, rfl, rfl⟩⟩
  | charged hs hc => exact ⟨rfl, rfl, ⟨[], by simp⟩, ⟨[], by simp⟩, fun h => by simp [hs] at h⟩
  | credited hs _ hk _ _ =>
    exact ⟨rfl, rfl, ⟨_, rfl, by simpa using hk⟩, ⟨[], by simp⟩, fun h => by simp [hs] at h⟩
  | told ht =>
    refine ⟨ht.key, ht.clock, ⟨_, ht.shown, ?_⟩, ⟨_, ht.moments, by simp⟩, fun h => ?_⟩
    · intro t hmem
      split at hmem
      · simp only [List.mem_singleton] at hmem
        exact hmem ▸ ht.sessionKey
      · simp at hmem
    · have := ht.held
      simp [h] at this

theorem Leads.own {allowed : Touch → Prop} (h : Leads allowed s s') : Own s s' :=
  h.invariant (Own.refl s) fun _ _ _ _ hown hm => hown.trans (Own.of_move hm)

theorem Fresh.own (h : Own s s') (hf : s.Fresh) : s'.Fresh := by
  obtain ⟨he, hs, hm⟩ := h.missing hf.entry
  refine ⟨he, fun t ht => ?_, fun m hmm => ?_⟩
  · rw [h.key]
    exact hf.shown t (hs ▸ ht)
  · rw [h.key]
    exact hf.moments m (hm ▸ hmm)

theorem Fresh.apart (h : Apart s s') (hf : s.Fresh) : s'.Fresh := by
  obtain ⟨others, hs, hk⟩ := h.shown
  obtain ⟨others', hm, hk'⟩ := h.moments
  refine ⟨h.entry.trans hf.entry, fun t ht => ?_, fun m hmm => ?_⟩
  · rw [h.key]
    rw [hs] at ht
    rcases List.mem_append.1 ht with ht | ht
    · exact hf.shown t ht
    · exact hk t ht
  · rw [h.key]
    rw [hm] at hmm
    rcases List.mem_append.1 hmm with hmm | hmm
    · exact hf.moments m hmm
    · exact hk' m hmm

/-! ## Properties that calls keep -/

/-- The entry of a session just opened. -/
structure Opened (entry : Entry) : Prop where
  phase : entry.machine.phase = .opening
  started : entry.timers.finalizeStartedAt = none
  deadline : entry.timers.deadline = finalizeDeadline entry.credit.budgets.inputKind

/-- **A property of slots that every manager call keeps.** -/
structure Kept (P : Slot β → Prop) : Prop where
  opened : ∀ (s : Slot β) (entry : Entry) (output : BoundedOutputQueue β), P s → s.Fresh →
    Opened entry → P { s with entry := some entry, output := output }
  move : ∀ s touch s', P s → Move s touch s' → P s'
  apart : ∀ s s', P s → Apart s s' → P s'

theorem Kept.leads {P : Slot β → Prop} {allowed : Touch → Prop} (hP : Kept P)
    (h : Leads allowed s s') (hs : P s) : P s' :=
  h.invariant hs fun s touch s' _ => hP.move s touch s'

/-- Every kind of move. -/
def anyTouch (_ : Touch) : Prop := True

theorem ordinary_any : Ordinary anyTouch := ⟨trivial, trivial, trivial⟩

end Slot

/-! ## Calls -/

/-- A call on the manager, or on the output queue of one of its sessions. -/
inductive ManagerCall (β : Type)
  | openSession (requestedGeneration : ℕ) (budgets : SessionBudgets)
      (admissionCheck initialized : Except Error Unit)
  | apply (key : ℕ) (event : LogicalSessionEvent) (cause : Option Error)
  | acceptInput (key bytes : ℕ)
  | releaseAudioInput (key chunks bytes : ℕ)
  | startTextSegment (key : ℕ)
  | finishTextSegment (key : ℕ)
  | checkGeneration (key generation : ℕ)
  | sweepDue
  | stopAdmissionAndDrain (cause : Error)
  | output (key : ℕ) (call : BoundedOutputQueue.Call β)

namespace SessionManager

variable {β : Type} {m : SessionManager β} {P : Slot β → Prop}

/-- The manager after a call. -/
def after (m : SessionManager β) : ManagerCall β → SessionManager β
  | .openSession generation budgets admissionCheck initialized =>
    (m.openSession generation budgets admissionCheck initialized).1
  | .apply key event cause => (m.apply key event cause).1
  | .acceptInput key bytes => (m.acceptInput key bytes).1
  | .releaseAudioInput key chunks bytes => (m.releaseAudioInput key chunks bytes).1
  | .startTextSegment key => (m.startTextSegment key).1
  | .finishTextSegment key => (m.finishTextSegment key).1
  | .checkGeneration key generation => (m.checkGeneration key generation).1
  | .sweepDue => m.sweepDue
  | .stopAdmissionAndDrain cause => m.stopAdmissionAndDrain cause
  | .output key call => { m with outputs := m.outputs.modify key fun output => output.call call }

/-- The manager after a sequence of calls. -/
def afterAll (m : SessionManager β) (calls : List (ManagerCall β)) : SessionManager β :=
  calls.foldl after m

/-- **What every call keeps**: the property holds of every key, and the
keys not given out yet are fresh. -/
structure Keeps (P : Slot β → Prop) (m : SessionManager β) : Prop where
  holds : ∀ key, P (m.slot key)
  fresh : ∀ key ≥ m.nextKey, (m.slot key).Fresh

/-- The slot a call named, put back. -/
theorem slot_put_self (m : SessionManager β) (s : Slot β) (hclock : s.clock = m.clock) :
    ∃ output, (m.put s).slot s.key = { s with output := output } := by
  refine ⟨((m.put s).slot s.key).output, ?_⟩
  unfold put slot
  cases he : s.entry with
  | none => simp [hclock, ← he]
  | some entry => simp [hclock, ← he]

/-- The slot of another key. -/
theorem apart_put {s : Slot β} {key : ℕ} (hown : Slot.Own (m.slot s.key) s) (hk : s.key ≠ key) :
    Slot.Apart (m.slot key) ((m.put s).slot key) := by
  obtain ⟨own, hs, hkeys⟩ := hown.shown
  obtain ⟨own', hm, hkeys'⟩ := hown.moments
  refine ⟨rfl, rfl, ?_, ⟨own, hs, fun t ht => ?_⟩, ⟨own', hm, fun x hx => ?_⟩⟩
  · unfold put slot
    cases s.entry with
    | none => simp [Table.getElem?_erase_of_ne hk]
    | some entry => simp [Table.getElem?_insert_of_ne hk]
  · exact fun h => hk ((hkeys t ht).symm.trans h)
  · exact fun h => hk ((hkeys' x hx).symm.trans h)

@[simp] theorem put_nextKey (m : SessionManager β) (s : Slot β) :
    (m.put s).nextKey = m.nextKey := rfl

@[simp] theorem put_limits (m : SessionManager β) (s : Slot β) : (m.put s).limits = m.limits := rfl

/-- A slot changed only in its output queue. -/
theorem apart_output (s : Slot β) (output : BoundedOutputQueue β) :
    Slot.Apart s { s with output := output } :=
  ⟨rfl, rfl, rfl, ⟨[], by simp⟩, ⟨[], by simp⟩⟩

/-- **A property of managers that every call keeps**: a slot is served and
put back, a session enters under the next key while there is room, or
something changes that no session's entry shows. -/
structure Closed (Q : SessionManager β → Prop) : Prop where
  put : ∀ (m : SessionManager β) (key : ℕ) (s : Slot β), Q m →
    Slot.Leads Slot.anyTouch (m.slot key) s → Q (m.put s)
  enter : ∀ (m : SessionManager β) (entry : Entry) (output : BoundedOutputQueue β), Q m →
    Slot.Opened entry → m.entries.size < m.limits.maxSessions → Q { m with
      nextKey := m.nextKey + 1
      reads := m.reads + 1
      entries := m.entries.insert m.nextKey entry
      outputs := m.outputs.insert m.nextKey output }
  aside : ∀ m m' : SessionManager β, Q m → m'.limits = m.limits → m'.entries = m.entries →
    m'.clock = m.clock → m'.shown = m.shown → m'.moments = m.moments → m.nextKey ≤ m'.nextKey →
    Q m'

section Closed

variable {Q : SessionManager β → Prop} (hQ : Closed Q)
include hQ

theorem Closed.call (h : Q m) {γ : Type} (key : ℕ) {operation : Slot β → Slot β × γ}
    (hop : Slot.Leads Slot.anyTouch (m.slot key) (operation (m.slot key)).1) :
    Q (m.call key operation).1 :=
  hQ.put m key _ h hop

theorem Closed.forEach (h : Q m) {visit : Slot β → Slot β}
    (hvisit : ∀ s, Slot.Leads Slot.anyTouch s (visit s)) (keys : List ℕ) :
    Q (m.forEach visit keys) := by
  induction keys generalizing m with
  | nil => exact h
  | cons key rest ih => exact ih (hQ.put m key _ h (hvisit (m.slot key)))

theorem Closed.openSession (h : Q m) (generation : ℕ) (budgets : SessionBudgets)
    (admissionCheck initialized : Except Error Unit) :
    Q (m.openSession generation budgets admissionCheck initialized).1 := by
  unfold SessionManager.openSession
  split
  · exact h
  split
  · exact h
  split
  · exact h
  next hroom =>
    split
    · exact h
    split
    · exact h
    next machine hmachine =>
      have hphase := LogicalSessionMachine.phase_openMachine hmachine
      simp only
      split
      · exact hQ.aside m _ h rfl rfl rfl rfl rfl (Nat.le_succ _)
      · refine hQ.call (hQ.enter m _ _ h ⟨hphase, rfl, rfl⟩ (Nat.not_le.1 hroom)) m.nextKey ?_
        exact Slot.leads_admission Slot.ordinary_any _ initialized
          (by simp only [slot, Table.getElem?_insert_self]) hphase trivial

/-- **Every call keeps the property.** -/
theorem Closed.after (h : Q m) (call : ManagerCall β) : Q (m.after call) := by
  cases call with
  | openSession generation budgets admissionCheck initialized =>
    exact hQ.openSession h generation budgets admissionCheck initialized
  | apply key event cause =>
    exact hQ.call h key (Slot.leads_apply Slot.ordinary_any _ event cause trivial)
  | acceptInput key bytes =>
    exact hQ.call h key (Slot.leads_acceptInput Slot.ordinary_any _ bytes trivial trivial)
  | releaseAudioInput key chunks bytes =>
    exact hQ.call h key (Slot.leads_updateCredit Slot.ordinary_any _
      (Slot.orderly_releaseAudio chunks bytes) trivial)
  | startTextSegment key =>
    exact hQ.call h key (Slot.leads_updateCredit Slot.ordinary_any _
      Slot.orderly_startSegment trivial)
  | finishTextSegment key =>
    exact hQ.call h key (Slot.leads_updateCredit Slot.ordinary_any _
      Slot.orderly_finishSegment trivial)
  | checkGeneration key generation =>
    exact hQ.call h key (Slot.leads_checkGeneration Slot.ordinary_any _ generation)
  | sweepDue => exact hQ.forEach h (Slot.leads_sweep Slot.ordinary_any) _
  | stopAdmissionAndDrain cause =>
    have haside : Q { m with admissionOpen := false } :=
      hQ.aside m _ h rfl rfl rfl rfl rfl le_rfl
    exact hQ.forEach haside (fun s => Slot.leads_drain s cause trivial) _
  | output key call => exact hQ.aside m _ h rfl rfl rfl rfl rfl le_rfl

theorem Closed.afterAll (h : Q m) (calls : List (ManagerCall β)) : Q (m.afterAll calls) := by
  induction calls generalizing m with
  | nil => exact h
  | cons call later ih => exact ih (hQ.after h call)

end Closed

theorem afterAll_append (m : SessionManager β) (first second : List (ManagerCall β)) :
    m.afterAll (first ++ second) = (m.afterAll first).afterAll second :=
  List.foldl_append

/-! ## Properties of every slot -/

section Keeps

variable (hP : Slot.Kept P)
include hP

/-- Putting a served slot back keeps the property of every key. -/
theorem Keeps.put (h : Keeps P m) {key : ℕ} {s : Slot β}
    (hl : Slot.Leads Slot.anyTouch (m.slot key) s) : Keeps P (m.put s) := by
  have hown := hl.own
  have hkey : s.key = key := hown.key
  subst hkey
  obtain ⟨output, hself⟩ := slot_put_self m s hown.clock
  constructor
  · intro key
    by_cases hk : s.key = key
    · subst hk
      rw [hself]
      exact hP.apart s _ (hP.leads hl (h.holds s.key)) (apart_output s output)
    · exact hP.apart _ _ (h.holds key) (apart_put hown hk)
  · intro key hge
    by_cases hk : s.key = key
    · subst hk
      rw [hself]
      exact ((h.fresh s.key hge).own hown).apart (apart_output s output)
    · exact (h.fresh key hge).apart (apart_put hown hk)

/-- A session enters under the next key. -/
theorem Keeps.enter (h : Keeps P m) {entry : Entry} (hopened : Slot.Opened entry)
    (output : BoundedOutputQueue β) :
    Keeps P { m with
      nextKey := m.nextKey + 1
      reads := m.reads + 1
      entries := m.entries.insert m.nextKey entry
      outputs := m.outputs.insert m.nextKey output } := by
  have hother : ∀ key, m.nextKey ≠ key → Slot.Apart (m.slot key) (SessionManager.slot { m with
      nextKey := m.nextKey + 1
      reads := m.reads + 1
      entries := m.entries.insert m.nextKey entry
      outputs := m.outputs.insert m.nextKey output } key) := by
    intro key hk
    refine ⟨rfl, rfl, ?_, ⟨[], by simp [slot]⟩, ⟨[], by simp [slot]⟩⟩
    simp only [slot, Table.getElem?_insert_of_ne hk]
  constructor
  · intro key
    by_cases hk : m.nextKey = key
    · subst hk
      have hself := hP.opened (m.slot m.nextKey) entry output (h.holds m.nextKey)
        (h.fresh m.nextKey le_rfl) hopened
      refine hP.apart _ _ hself ⟨rfl, rfl, ?_, ⟨[], by simp [slot]⟩, ⟨[], by simp [slot]⟩⟩
      simp only [slot, Table.getElem?_insert_self]
    · exact hP.apart _ _ (h.holds key) (hother key hk)
  · intro key hge
    have hlt : m.nextKey < key := hge
    exact (h.fresh key hlt.le).apart (hother key hlt.ne)

/-- **A property that moves keep is kept by calls.** -/
theorem closed_keeps : Closed (Keeps P) where
  put m key s h hl := h.put hP hl
  enter m entry output h hopened _ := h.enter hP hopened output
  aside m m' h _ hentries hclock hshown hmoments hnext := by
    have hslot : ∀ key, Slot.Apart (m.slot key) (m'.slot key) := by
      intro key
      exact ⟨rfl, hclock, by simp only [slot, hentries], ⟨[], by simp [slot, hshown]⟩,
        ⟨[], by simp [slot, hmoments]⟩⟩
    exact ⟨fun key => hP.apart _ _ (h.holds key) (hslot key),
      fun key hge => (h.fresh key (hnext.trans hge)).apart (hslot key)⟩

omit hP in
/-- A manager just created has every property a fresh slot has. -/
theorem keeps_create (hfresh : ∀ s, s.Fresh → P s) {limits : SessionLimits} {generation : ℕ}
    {clock : ℕ → TimePoint} (hm : create limits generation clock = .ok m) : Keeps P m := by
  unfold create at hm
  split at hm
  · simp at hm
  · simp only [Except.ok.injEq] at hm
    subst hm
    have hslot : ∀ key, (SessionManager.slot (β := β) {
        limits := limits
        servingGeneration := generation
        clock := clock } key).Fresh := by
      intro key
      exact ⟨by simp [slot], by simp [slot], by simp [slot]⟩
    exact ⟨fun key => hfresh _ (hslot key), fun key _ => hslot key⟩

end Keeps

end SessionManager

end Serving

end Tensorplate
