import Tensorplate.Session.Calls

/-!
# The slots of a worker's sessions

A slot is taken by `open` and given back by one transition. What the sink
was shown of a session is a trace of its machine, so the machine's own
guarantees say when a slot comes back; the ledger counts the slots that
are out.
-/

namespace Tensorplate

namespace Serving

open Lib

namespace Slot

variable {β : Type} {s s' : Slot β} {entry : Entry}

/-- What the sink was shown of a slot's own session, in order. -/
def ownShown (s : Slot β) : List ManagedSessionTransition :=
  s.shown.filter fun t => t.sessionKey == s.key

/-- A transition gives the slot back. -/
def gives (t : ManagedSessionTransition) : Bool := t.effects.contains .releaseSlot

/-- **A slot comes back once**, by the acknowledged release, after the
request for cleanup was shown. -/
def Rightful (past : List ManagedSessionTransition) (t : ManagedSessionTransition) : Prop :=
  gives t = true → t.event = some .releaseAcknowledged ∧ (∀ u ∈ past, gives u = false) ∧
    ∃ u ∈ past, .requestCleanup ∈ u.effects

/-- **What was shown explains the slot**: it is the trace of the machine,
and the entry is there as long as the machine holds its reservation. -/
structure Charted (s : Slot β) : Prop where
  rightful : Lawful Rightful s.ownShown
  traced : ∃ phase, Traced phase (s.ownShown.flatMap (·.effects)) ∧
    s.entry.isSome = phase.holdsReservation ∧
    ∀ entry, s.entry = some entry → entry.machine.phase = phase

theorem Apart.ownShown (h : Apart s s') : s'.ownShown = s.ownShown := by
  obtain ⟨others, hs, hk⟩ := h.shown
  have hnone : others.filter (fun t => t.sessionKey == s.key) = [] := by
    simpa using hk
  simp [Slot.ownShown, h.key, hs, hnone]

theorem Charted.of_eq (h : s.Charted) (hshown : s'.ownShown = s.ownShown)
    (hsome : s'.entry.isSome = s.entry.isSome)
    (hphase : ∀ entry', s'.entry = some entry' → ∃ entry, s.entry = some entry ∧
      entry'.machine.phase = entry.machine.phase) : s'.Charted := by
  obtain ⟨phase, ht, hheld, hentry⟩ := h.traced
  refine ⟨hshown ▸ h.rightful, phase, hshown ▸ ht, hsome.trans hheld, ?_⟩
  intro entry' he
  obtain ⟨entry, he', hp⟩ := hphase entry' he
  exact hp.trans (hentry entry he')

/-- The reservation is held until a release. -/
theorem holds_next {phase phase' : Phase} {event : LogicalSessionEvent}
    {effects : LogicalSessionEffects} (h : Rules.next phase event = some (phase', effects))
    (hp : phase.holdsReservation = true) :
    phase'.holdsReservation = !effects.contains .releaseSlot := by
  have hc := Rules.of_next (fun phase _ phase' effects => !phase.holdsReservation ||
    phase'.holdsReservation == !effects.contains .releaseSlot)
    (by intro p e; cases p <;> cases e <;> rfl) h
  simpa [hp] using hc

/-- A phase that gives the slot back knows that cleanup was requested and
that the slot is still held. -/
theorem known_of_release {phase phase' : Phase} {event : LogicalSessionEvent}
    {effects : LogicalSessionEffects} (h : Rules.next phase event = some (phase', effects))
    (hr : .releaseSlot ∈ effects) :
    phase.known .requestCleanup = some true ∧ phase.known .releaseSlot = some false := by
  have hc := Rules.of_next (fun phase _ _ effects => !effects.contains .releaseSlot ||
    (phase.known .requestCleanup == some true && phase.known .releaseSlot == some false))
    (by intro p e; cases p <;> cases e <;> rfl) h
  simpa [hr] using hc

theorem Took.ownShown {event : LogicalSessionEvent} {transition : ManagedSessionTransition}
    {entry' : Entry} (h : s.Took event entry transition entry' s') :
    s'.ownShown = s.ownShown ++ [transition] ∨
      s'.ownShown = s.ownShown ∧ transition.effects = [] := by
  have hshown := h.shown
  split at hshown
  · left
    simp [Slot.ownShown, hshown, h.key, h.sessionKey]
  · next he =>
    right
    simp only [not_or, not_not] at he
    exact ⟨by simp [Slot.ownShown, hshown, h.key], he.1⟩

/-- **An accepted event keeps the chart**: its effects lengthen the trace,
and they give the slot back only where the trace allows it. -/
theorem Took.charted {event : LogicalSessionEvent} {transition : ManagedSessionTransition}
    {entry' : Entry} (h : s.Took event entry transition entry' s') (hc : s.Charted) :
    s'.Charted := by
  obtain ⟨phase, ht, hheld, hentry⟩ := hc.traced
  obtain rfl := hentry entry h.held
  have hholds : entry.machine.phase.holdsReservation = true := by
    rw [← hheld, h.held]
    rfl
  refine ⟨?_, entry'.machine.phase, ?_, ?_, ?_⟩
  · rcases h.ownShown with hown | ⟨hown, -⟩
    · rw [hown, lawful_append_singleton]
      refine ⟨hc.rightful, fun hg => ?_⟩
      have hr : .releaseSlot ∈ transition.effects := by simpa [gives] using hg
      obtain ⟨hclean, hkept⟩ := known_of_release h.next hr
      refine ⟨by rw [h.tells, Rules.event_of_releaseSlot h.next hr], fun u hu => ?_, ?_⟩
      · have hnot := (ht.known .releaseSlot).2 hkept
        simp only [List.mem_flatMap, not_exists, not_and] at hnot
        simpa [gives] using hnot u hu
      · have hin := (ht.known .requestCleanup).1 hclean
        simpa only [List.mem_flatMap] using hin
    · rw [hown]
      exact hc.rightful
  · have htrace : s'.ownShown.flatMap (·.effects) =
        s.ownShown.flatMap (·.effects) ++ transition.effects := by
      rcases h.ownShown with hown | ⟨hown, he⟩
      · simp [hown]
      · simp [hown, he]
    exact htrace ▸ ht.next h.next
  · rw [h.left, holds_next h.next hholds]
    by_cases hr : .releaseSlot ∈ transition.effects <;> simp [hr]
  · intro e he
    rw [h.left] at he
    split at he
    · simp at he
    · simp only [Option.some.injEq] at he
      rw [he]

/-- The transition that gives a slot back is the only one. -/
theorem Charted.rightful_alone (h : s.Charted) {past future : List ManagedSessionTransition}
    {t : ManagedSessionTransition} (heq : s.ownShown = past ++ t :: future)
    (hr : .releaseSlot ∈ t.effects) : t.event = some .releaseAcknowledged ∧
      (∀ u ∈ past ++ future, .releaseSlot ∉ u.effects) ∧ ∃ u ∈ past, .requestCleanup ∈ u.effects := by
  have hg : gives t = true := by simpa [gives] using hr
  obtain ⟨hevent, hpast, hclean⟩ := h.rightful past t future heq hg
  refine ⟨hevent, fun u hu => ?_, hclean⟩
  rcases List.mem_append.1 hu with hu | hu
  · simpa [gives] using hpast u hu
  · intro hru
    obtain ⟨front, back, rfl⟩ := List.append_of_mem hu
    have hu' := h.rightful (past ++ t :: front) u back (by simp [heq]) (by simpa [gives] using hru)
    simpa [hg] using hu'.2.1 t (by simp)

/-- A slot never opened, or one that what was shown explains. -/
def ChartedIfOpened (s : Slot β) : Prop := s.Fresh ∨ s.Charted

theorem kept_charted : Kept (ChartedIfOpened (β := β)) where
  opened s entry output _ hf ho := by
    right
    have hempty : s.ownShown = [] := by simpa [ownShown] using hf.shown
    refine ⟨?_, .opening, ?_, rfl, ?_⟩
    · exact hempty.symm ▸ lawful_nil
    · have htrace : ({ s with entry := some entry, output := output } : Slot β).ownShown = [] :=
        hempty
      rw [htrace]
      exact traced_opening
    · intro entry' he
      simp only [Option.some.injEq] at he
      exact he ▸ ho.phase
  move s touch s' hP hm := by
    rcases hP with hf | hc
    · exact .inl (hf.own (Own.of_move hm))
    · right
      cases hm with
      | looked => exact hc.of_eq rfl rfl fun entry he => ⟨entry, he, rfl⟩
      | charged hs _ =>
        refine hc.of_eq rfl (by simp [hs]) fun entry' he => ⟨_, hs, ?_⟩
        simp only [Option.some.injEq] at he
        rw [← he]
      | @credited entry credit status hs hb hk he hf =>
        obtain ⟨phase, ht, hheld, hentry⟩ := hc.traced
        have hown : ({ s with
            entry := some { entry with credit := credit }
            shown := s.shown ++ [status] } : Slot β).ownShown = s.ownShown ++ [status] := by
          simp [ownShown, hk]
        refine ⟨?_, phase, ?_, by rw [← hheld, hs]; rfl, ?_⟩
        · rw [hown, lawful_append_singleton]
          exact ⟨hc.rightful, fun hg => by simp [gives, hf] at hg⟩
        · rw [hown]
          simpa [hf] using ht
        · intro e he'
          simp only [Option.some.injEq] at he'
          rw [← he']
          exact hentry entry hs
      | told ht => exact ht.charted hc
  apart s s' hP ha := by
    rcases hP with hf | hc
    · exact .inl (hf.apart ha)
    · exact .inr (hc.of_eq ha.ownShown (by rw [ha.entry])
        fun entry he => ⟨entry, ha.entry ▸ he, rfl⟩)

end Slot

namespace Slot

variable {β : Type} {s s' : Slot β}

/-- The session was opened: its entry is there, or events of it were. -/
def Used (s : Slot β) : Prop := s.entry ≠ none ∨ ∃ m ∈ s.moments, m.key = s.key

theorem Used.not_fresh (h : s.Used) : ¬ s.Fresh := by
  intro hf
  rcases h with h | ⟨m, hm, hk⟩
  · exact h hf.entry
  · exact hf.moments m hm hk

theorem Used.apart (h : s.Used) (ha : Apart s s') : s'.Used := by
  rcases h with h | ⟨m, hm, hk⟩
  · exact .inl (ha.entry ▸ h)
  · obtain ⟨others, hmoments, -⟩ := ha.moments
    exact .inr ⟨m, by simp [hmoments, hm], hk.trans ha.key.symm⟩

theorem Used.move {touch : Touch} (h : s.Used) (hm : Move s touch s') : s'.Used := by
  cases hm with
  | looked => exact h
  | charged _ _ => exact .inl (by simp)
  | credited _ _ _ _ _ => exact .inl (by simp)
  | told ht =>
    right
    refine ⟨_, ht.moments ▸ List.mem_append_right _ (List.mem_singleton.2 rfl), ?_⟩
    exact ht.key.symm

/-- One session stays opened. -/
theorem kept_used (key : ℕ) : Kept fun s : Slot β => s.key = key → s.Used where
  opened s entry output _ _ _ _ := .inl (by simp)
  move s touch s' hP hm hk := (hP ((Own.of_move hm).key ▸ hk)).move hm
  apart s s' hP ha hk := (hP (ha.key ▸ hk)).apart ha

/-- **A session that was released stays so.** -/
theorem kept_gone (key : ℕ) :
    Kept fun s : Slot β => s.key = key → s.entry = none ∧ s.Used where
  opened s entry output hP hf _ hk := absurd hf (hP hk).2.not_fresh
  move s touch s' hP hm hk := by
    have hown := Own.of_move hm
    obtain ⟨hnone, hused⟩ := hP (hown.key ▸ hk)
    exact ⟨(hown.missing hnone).1, hused.move hm⟩
  apart s s' hP ha hk := by
    obtain ⟨hnone, hused⟩ := hP (ha.key ▸ hk)
    exact ⟨ha.entry ▸ hnone, hused.apart ha⟩

/-- The release of a charted slot was shown exactly if its entry is gone. -/
theorem Charted.countP_gives (h : s.Charted) :
    s.ownShown.countP gives = if s.entry.isSome then 0 else 1 := by
  obtain ⟨phase, ht, hheld, -⟩ := h.traced
  have hiff := LogicalSessionMachine.holdsReservation_iff_of_traced (m := ⟨phase, 0⟩) ht
  have hle : s.ownShown.countP gives ≤ 1 :=
    h.rightful.countP_le_one fun past t hok hg => (hok hg).2.1
  rw [hheld]
  cases hp : phase.holdsReservation with
  | true =>
    have hnot := hiff.1 hp
    simp only [List.mem_flatMap, not_exists, not_and] at hnot
    simpa [gives] using hnot
  | false =>
    have hin : .releaseSlot ∈ s.ownShown.flatMap (·.effects) := by
      by_contra hnot
      have hholds : phase.holdsReservation = true := hiff.2 hnot
      simp [hp] at hholds
    obtain ⟨t, ht, hr⟩ := List.mem_flatMap.1 hin
    have hpos : 0 < s.ownShown.countP gives :=
      List.countP_pos_iff.2 ⟨t, ht, by simpa [gives] using hr⟩
    simp only [Bool.false_eq_true, if_false]
    omega

end Slot

namespace SessionManager

variable {β : Type} {m : SessionManager β}

/-! ## The count of the slots -/

/-- The slots held fit the limit. -/
def Bounded (limits : SessionLimits) (m : SessionManager β) : Prop :=
  m.limits = limits ∧ m.entries.size ≤ limits.maxSessions

theorem closed_bounded (limits : SessionLimits) : Closed (Bounded (β := β) limits) where
  put m key s h hl := by
    refine ⟨h.1, le_trans ?_ h.2⟩
    have hown := hl.own
    have hkey : s.key = key := hown.key
    unfold put
    cases he : s.entry with
    | none => exact Std.TreeMap.size_erase_le
    | some entry =>
      have hmem : s.key ∈ m.entries := by
        by_contra hnot
        have hnone : (m.slot key).entry = none := by
          rw [← hkey]
          exact Table.getElem?_eq_none.2 hnot
        simp [(hown.missing hnone).1] at he
      simp [Std.TreeMap.size_insert, hmem]
  enter m entry output h _ hroom := by
    refine ⟨h.1, le_trans Std.TreeMap.size_insert_le ?_⟩
    rw [← h.1]
    exact hroom
  aside m m' h hlimits hentries _ _ _ _ := ⟨hlimits.trans h.1, hentries ▸ h.2⟩

/-- What a ledger counts. -/
def counted (ledger : WorkerLedger) : ℕ := ledger.reserved + ledger.active + ledger.closing

/-- An entry is counted once, unless its session is closed. -/
theorem counted_ledgerEntry {ledger : WorkerLedger} {entry : Entry}
    (h : entry.machine.state ≠ .closed) :
    counted (ledgerEntry ledger entry) = counted ledger + 1 := by
  unfold ledgerEntry counted
  cases hs : entry.machine.state <;> simp_all <;> omega

theorem counted_foldl (ledger : WorkerLedger) {entries : List Entry}
    (h : ∀ entry ∈ entries, entry.machine.state ≠ .closed) :
    counted (entries.foldl ledgerEntry ledger) = counted ledger + entries.length := by
  induction entries generalizing ledger with
  | nil => rfl
  | cons entry later ih =>
    have hlater := fun e he => h e (List.mem_cons_of_mem entry he)
    rw [List.foldl_cons, ih _ hlater, counted_ledgerEntry (h entry (by simp)), List.length_cons]
    omega

/-- **Every held slot is counted exactly once.** -/
theorem counted_ledger (h : ∀ (key : ℕ) (entry : Entry), m.entries[key]? = some entry →
    entry.machine.state ≠ .closed) : counted m.ledger = m.heldSlots := by
  have hopen : ∀ entry ∈ m.entries.values, entry.machine.state ≠ .closed := by
    intro entry he
    obtain ⟨key, hk⟩ := Table.mem_values.1 he
    exact h key entry hk
  have hcount := counted_foldl ⟨m.limits.maxSessions, 0, 0, 0, []⟩ hopen
  rw [Table.length_values] at hcount
  simpa [counted, ledger, heldSlots] using hcount

/-! ## Every sequence of calls -/

/-- The entry of a session held, its machine and its reservation. -/
theorem holds_of_charted {s : Slot β} {entry : Entry} (h : s.ChartedIfOpened)
    (he : s.entry = some entry) : entry.machine.holdsReservation = true := by
  rcases h with hf | hc
  · simp [hf.entry] at he
  · obtain ⟨phase, -, hheld, hentry⟩ := hc.traced
    rw [LogicalSessionMachine.holdsReservation, hentry entry he, ← hheld, he]
    rfl

/-- **The slots are accounted for.** After every sequence of calls the held
slots fit the limit, every held entry's machine holds its reservation, and
the ledger counts each held slot once; of any session, the slot is given
back at most once, by the acknowledged release, after the request for
cleanup was shown. A key once held is held until exactly one transition
gives its slot back, and is never held again. -/
theorem calls_slots_accounted {limits : SessionLimits} {generation : ℕ}
    {clock : ℕ → TimePoint} {m : SessionManager β}
    (hm : create limits generation clock = .ok m) :
    (∀ calls, let last := m.afterAll calls
      last.heldSlots ≤ limits.maxSessions ∧
      (∀ (key : ℕ) (entry : Entry), last.entries[key]? = some entry →
        entry.machine.holdsReservation = true) ∧
      last.ledger.reserved + last.ledger.active + last.ledger.closing = last.heldSlots ∧
      ∀ key past t future, (last.slot key).ownShown = past ++ t :: future →
        .releaseSlot ∈ t.effects → t.event = some .releaseAcknowledged ∧
          (∀ u ∈ past ++ future, .releaseSlot ∉ u.effects) ∧
          ∃ u ∈ past, .requestCleanup ∈ u.effects) ∧
    (∀ first second key, key ∈ (m.afterAll first).entries →
      let last := m.afterAll (first ++ second)
      (key ∈ last.entries ∧ ∀ t ∈ (last.slot key).ownShown, .releaseSlot ∉ t.effects) ∨
      (key ∉ last.entries ∧ (last.slot key).ownShown.countP
          (fun t => t.effects.contains .releaseSlot) = 1 ∧
        ∀ third, key ∉ (m.afterAll (first ++ second ++ third)).entries)) := by
  have hcharted : ∀ calls, Keeps Slot.ChartedIfOpened (m.afterAll calls) := fun calls =>
    (closed_keeps Slot.kept_charted).afterAll (keeps_create (fun _ => .inl) hm) calls
  constructor
  · intro calls last
    have hheld : ∀ (key : ℕ) (entry : Entry), last.entries[key]? = some entry →
        entry.machine.holdsReservation = true := fun key entry he =>
      holds_of_charted ((hcharted calls).holds key) he
    have hbounded : Bounded limits last := by
      refine (closed_bounded limits).afterAll ?_ calls
      unfold create at hm
      split at hm
      · simp at hm
      · simp only [Except.ok.injEq] at hm
        subst hm
        exact ⟨rfl, Nat.zero_le _⟩
    refine ⟨hbounded.2, hheld, counted_ledger fun key entry he hclosed => ?_, ?_⟩
    · have := hheld key entry he
      unfold LogicalSessionMachine.holdsReservation LogicalSessionMachine.state at *
      cases hp : entry.machine.phase <;> simp_all [Phase.state, Phase.holdsReservation]
    · intro key past t future heq hr
      rcases (hcharted calls).holds key with hf | hc
      · have hempty : (last.slot key).ownShown = [] := by simpa [Slot.ownShown] using hf.shown
        simp [hempty] at heq
      · exact hc.rightful_alone heq hr
  · intro first second key hkey last
    have hused : (last.slot key).Used := by
      have hfirst : Keeps (fun s => s.key = key → s.Used) (m.afterAll first) := by
        refine ⟨fun key' hk => .inl ?_, (hcharted first).fresh⟩
        obtain rfl : key' = key := hk
        exact fun hnone => Table.getElem?_eq_none.1 hnone hkey
      have hlast := (closed_keeps (Slot.kept_used key)).afterAll hfirst second
      rw [← afterAll_append] at hlast
      exact hlast.holds key rfl
    have hc : (last.slot key).Charted :=
      ((hcharted (first ++ second)).holds key).resolve_left hused.not_fresh
    have hcount := hc.countP_gives
    by_cases hheld : key ∈ last.entries
    · left
      obtain ⟨entry, he⟩ := Table.mem_iff_getElem?.1 hheld
      rw [show (last.slot key).entry = some entry from he] at hcount
      refine ⟨hheld, fun t ht => ?_⟩
      have := List.countP_eq_zero.1 hcount t ht
      simpa [Slot.gives] using this
    · right
      have hnone : (last.slot key).entry = none := Table.getElem?_eq_none.2 hheld
      refine ⟨hheld, by rw [hnone] at hcount; exact hcount, fun third => ?_⟩
      have hgone : Keeps (fun s => s.key = key → s.entry = none ∧ s.Used) last := by
        refine ⟨fun key' hk => ?_, (hcharted (first ++ second)).fresh⟩
        obtain rfl : key' = key := hk
        exact ⟨hnone, hused⟩
      have hlater := (closed_keeps (Slot.kept_gone key)).afterAll hgone third
      rw [← afterAll_append] at hlater
      exact Table.getElem?_eq_none.1 (hlater.holds key rfl).1

/-- A session opened, aborted and released: its key was held, and its slot
came back by one transition. -/
theorem calls_slots_accounted_released :
    ∃ (m : SessionManager Unit) (budgets : SessionBudgets),
      create SessionLimits.defaults 7 (fun _ => 0) = .ok m ∧
      SessionBudgets.forAudioInput 32000 = .ok budgets ∧
      1 ∈ (m.afterAll [.openSession 7 budgets (.ok ()) (.ok ())]).entries ∧
      ∀ third, 1 ∉ (m.afterAll ([.openSession 7 budgets (.ok ()) (.ok ())] ++
        [.apply 1 .cancel none, .apply 1 .releaseAcknowledged none] ++ third)).entries := by
  have hm : create (β := Unit) SessionLimits.defaults 7 (fun _ => 0) =
      .ok {
        limits := SessionLimits.defaults
        servingGeneration := 7
        clock := fun _ => 0 } := rfl
  refine ⟨_, ⟨.audio, 32000, 0, 0, 0, by decide, rfl, rfl, rfl⟩, hm, rfl, by decide,
    fun third => ?_⟩
  rcases (calls_slots_accounted hm).2
    [.openSession 7 ⟨.audio, 32000, 0, 0, 0, by decide, rfl, rfl, rfl⟩ (.ok ()) (.ok ())]
    [.apply 1 .cancel none, .apply 1 .releaseAcknowledged none] 1 (by decide) with
    ⟨hheld, -⟩ | ⟨-, -, hnever⟩
  · exact absurd hheld (by decide)
  · exact hnever third

end SessionManager

end Serving

end Tensorplate
