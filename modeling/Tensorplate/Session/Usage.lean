import Tensorplate.Session.Credits
import Tensorplate.Session.Slot

/-!
# The usage a session's transitions report

Every transition the sink is called with carries the credit the session has
after it. Input is charged by the one call that takes it, credit returns by
the three that update it, and no other call changes the credit. Once input
was not taken the session takes none again.
-/

namespace Tensorplate

namespace Serving

open Lib (word64 sub64 sub64_of_le add64)

/-- A transition reports this credit. -/
def ManagedSessionTransition.Reports (t : ManagedSessionTransition) (c : InputCredit) : Prop :=
  t.status.inputCreditBytes = c.usage ∧ t.waitingSegments = c.waitingUsage

/-- A transition by which input was taken. -/
def ManagedSessionTransition.TakesInput (t : ManagedSessionTransition) : Prop :=
  t.event = some .data ∧ .acceptInput ∈ t.effects

/-- A phase from which no input is taken any more. -/
def Rules.deaf (phase : Phase) : Bool := draining phase || outcomeFixed phase

theorem Rules.deaf_next {phase phase' : Phase} {event : LogicalSessionEvent}
    {effects : LogicalSessionEffects} (h : next phase event = some (phase', effects))
    (hd : deaf phase = true) : deaf phase' = true ∧ .acceptInput ∉ effects := by
  have hc := of_next (fun phase _ phase' effects =>
    !deaf phase || (deaf phase' && !effects.contains .acceptInput))
    (by intro p e; cases p <;> cases e <;> rfl) h
  simpa [hd] using hc

/-- Only input is taken as input. -/
theorem Rules.event_of_acceptInput {phase phase' : Phase} {event : LogicalSessionEvent}
    {effects : LogicalSessionEffects} (h : next phase event = some (phase', effects))
    (hm : .acceptInput ∈ effects) : event = .data := by
  have hc := of_next (fun _ event _ effects => !effects.contains .acceptInput || event == .data)
    (by intro p e; cases p <;> cases e <;> rfl) h
  simpa [hm] using hc

/-! ## Credit that calls leave sound -/

namespace InputCredit

variable {c c' : InputCredit}

/-- The credit is what some sequence of its calls may leave. -/
def Fine (c : InputCredit) : Prop := ∃ a : CreditAccount, a.credit = c ∧ a.Sound

theorem fine_opened (budgets : SessionBudgets) : Fine { budgets := budgets } :=
  ⟨CreditAccount.opened budgets, rfl, CreditAccount.sound_opened budgets⟩

theorem Fine.call (h : Fine c) (request : CreditCall) : Fine (c.call request).1 := by
  obtain ⟨a, rfl, hs⟩ := h
  refine ⟨a.step request, ?_, hs.step request⟩
  unfold CreditAccount.step
  rcases hcall : a.credit.call request with ⟨c', refusal | ⟨⟩⟩
  · rfl
  · rfl

theorem Fine.within (h : Fine c) : c.heldBytes ≤ c.budgets.inputCreditBytes := by
  obtain ⟨a, rfl, hs⟩ := h
  exact hs.within

theorem Fine.waiting (h : Fine c) : c.waitingSegments.length ≤ c.budgets.waitingItems := by
  obtain ⟨a, rfl, hs⟩ := h
  rcases kind_cases a.credit with hkind | hkind
  · rw [hs.audio hkind]
    exact Nat.zero_le _
  · rw [(CreditAccount.text_items hkind).1]
    exact (hs.text hkind).2.2.1

/-- The usage of a sound credit is what it holds and what it may hold. -/
theorem Fine.usage (h : Fine c) : c.usage = ⟨c.heldBytes, c.budgets.inputCreditBytes⟩ ∧
    c.waitingUsage = ⟨c.waitingSegments.length, c.budgets.waitingItems⟩ :=
  ⟨if_neg (Nat.not_lt.2 h.within), if_neg (Nat.not_lt.2 h.waiting)⟩

/-- **A charge the credit has room for is accepted**, and held from then on. -/
theorem Fine.charge (h : Fine c) {bytes : ℕ} (hpos : 0 < bytes)
    (hroom : c.heldBytes + bytes ≤ c.budgets.inputCreditBytes)
    (hwait : c.budgets.inputKind = .text →
      c.waitingSegments.length + 1 ≤ c.budgets.waitingItems) :
    (c.charge bytes).2 = .ok () := by
  have hsub : sub64 c.budgets.inputCreditBytes c.heldBytes =
      c.budgets.inputCreditBytes - c.heldBytes :=
    sub64_of_le h.within (CreditAccount.credit_lt _)
  rcases call_cases c (.charge bytes) with ⟨refusal, hcall⟩ | ⟨c', -, hcall⟩
  · exfalso
    change c.charge bytes = (c, .error refusal) at hcall
    have hzero : bytes ≠ 0 := by omega
    have hle : ¬bytes > sub64 c.budgets.inputCreditBytes c.heldBytes := by omega
    unfold InputCredit.charge at hcall
    rw [if_neg hzero] at hcall
    rcases kind_cases c with hkind | hkind
    · simp [hkind, hle] at hcall
    · have hw := hwait hkind
      have hnot : ¬c.waitingSegments.length ≥ c.budgets.waitingItems := by omega
      simp [hkind, hle, hnot] at hcall
  · change c.charge bytes = (c', .ok ()) at hcall
    rw [hcall]

/-- What an accepted charge holds. -/
theorem Fine.charged (h : Fine c) {bytes : ℕ} (hc : c.charge bytes = (c', .ok ())) :
    c'.heldBytes = c.heldBytes + bytes ∧ c'.budgets = c.budgets ∧
      c'.waitingSegments.length = c.waitingSegments.length +
        (if c.budgets.inputKind = .text then 1 else 0) := by
  obtain ⟨a, rfl, hs⟩ := h
  rcases call_cases a.credit (.charge bytes) with ⟨refusal, hcall⟩ | ⟨c₁, hacc, hcall⟩
  · rw [show a.credit.charge bytes = a.credit.call (.charge bytes) from rfl, hcall] at hc
    exact absurd hc (by simp)
  · rw [show a.credit.charge bytes = a.credit.call (.charge bytes) from rfl, hcall] at hc
    obtain rfl : c₁ = c' := congrArg Prod.fst hc
    cases hacc with
    | segment hkind hpos hroom hwait =>
      refine ⟨(hs.add hroom).1, rfl, ?_⟩
      rw [if_pos hkind]
      exact List.length_append
    | chunk hkind hpos hroom =>
      refine ⟨(hs.add hroom).1, rfl, ?_⟩
      rw [if_neg (by rw [hkind]; exact nofun)]
      rfl

/-- **Credit that returns** leaves no more held and no more waiting. -/
theorem Fine.returned (h : Fine c) {request : CreditCall} (hr : ∀ bytes, request ≠ .charge bytes)
    (hc : c.call request = (c', .ok ())) :
    c'.heldBytes ≤ c.heldBytes ∧ c'.budgets = c.budgets ∧
      c'.waitingSegments.length ≤ c.waitingSegments.length := by
  obtain ⟨a, rfl, hs⟩ := h
  rcases call_cases a.credit request with ⟨refusal, hcall⟩ | ⟨c₁, hacc, hcall⟩
  · rw [hcall] at hc
    exact absurd hc (by simp)
  · rw [hcall] at hc
    obtain rfl : c₁ = c' := congrArg Prod.fst hc
    cases hacc with
    | segment => exact absurd rfl (hr _)
    | chunk => exact absurd rfl (hr _)
    | released hkind hpos hbytes hchunks htogether => exact ⟨Nat.sub_le _ _, rfl, le_rfl⟩
    | @started segment rest hkind hfront hfree =>
      have hsum := (hs.text hkind).1
      rw [hfront, List.sum_cons] at hsum
      have hlt := CreditAccount.credit_lt a.credit.budgets
      have hle := hs.within
      refine ⟨?_, rfl, ?_⟩
      · show sub64 a.credit.heldBytes segment ≤ a.credit.heldBytes
        rw [sub64_of_le (by omega) (by omega)]
        exact Nat.sub_le _ _
      · show rest.length ≤ a.credit.waitingSegments.length
        rw [hfront, List.length_cons]
        omega
    | finished hkind hactive => exact ⟨le_rfl, rfl, le_rfl⟩

end InputCredit

/-! ## Calls that leave the credit alone -/

namespace Slot

variable {β : Type} {s s' s₁ : Slot β}

/-- No input is taken from the slot any more. -/
def Deaf (s : Slot β) : Prop := ∀ entry, s.entry = some entry → Rules.deaf entry.machine.phase = true

/-- **A call that neither charges nor returns**: what it shows reports the
credit there was, and of the output it may only discard. -/
structure Plain (s s' : Slot β) : Prop where
  entry : ∀ e', s'.entry = some e' → ∃ e, s.entry = some e ∧ e'.credit = e.credit
  deaf : s.Deaf → s'.Deaf
  shown : ∃ new, s'.shown = s.shown ++ new ∧ ∀ t ∈ new, ¬t.TakesInput ∧
    ∃ e, s.entry = some e ∧ t.Reports e.credit
  output : s'.output.unsent.Sublist s.output.unsent

theorem Plain.refl (s : Slot β) : Plain s s :=
  ⟨fun e he => ⟨e, he, rfl⟩, id,
    ⟨[], (List.append_nil _).symm, fun _ ht => absurd ht List.not_mem_nil⟩, List.Sublist.refl _⟩

theorem Plain.trans (h₁ : Plain s s₁) (h₂ : Plain s₁ s') : Plain s s' := by
  obtain ⟨new₁, hshown₁, hnew₁⟩ := h₁.shown
  obtain ⟨new₂, hshown₂, hnew₂⟩ := h₂.shown
  refine ⟨fun e' he' => ?_, fun hd => h₂.deaf (h₁.deaf hd), ⟨new₁ ++ new₂, ?_, fun t ht => ?_⟩,
    h₂.output.trans h₁.output⟩
  · obtain ⟨e₁, he₁, hc₁⟩ := h₂.entry e' he'
    obtain ⟨e, he, hc⟩ := h₁.entry e₁ he₁
    exact ⟨e, he, hc₁.trans hc⟩
  · rw [hshown₂, hshown₁, List.append_assoc]
  · rcases List.mem_append.1 ht with ht | ht
    · exact hnew₁ t ht
    · obtain ⟨hnot, e₁, he₁, hrep⟩ := hnew₂ t ht
      obtain ⟨e, he, hc⟩ := h₁.entry e₁ he₁
      rw [hc] at hrep
      exact ⟨hnot, e, he, hrep⟩

theorem suppress_sublist (q : BoundedOutputQueue β) : q.suppress.unsent.Sublist q.unsent := by
  have hkept : ∀ (items : List (OutputItem β)) (q : BoundedOutputQueue β),
      (q.discardTaskOutput items).2.Sublist items := by
    intro items
    induction items with
    | nil => exact fun _ => List.Sublist.refl _
    | cons item rest ih =>
      intro q
      unfold BoundedOutputQueue.discardTaskOutput
      split
      · exact (ih q).cons_cons item
      · exact (ih _).cons item
  exact hkept _ _

/-- **An event that takes no input** leaves the credit alone. -/
theorem Took.plain {event : LogicalSessionEvent} {entry entry' : Entry}
    {t : ManagedSessionTransition} (h : s.Took event entry t entry' s')
    (hnot : .acceptInput ∉ t.effects) : Plain s s' := by
  refine ⟨fun e' he' => ⟨entry, h.held, ?_⟩, fun hd => ?_, ⟨_, h.shown, fun x hx => ?_⟩, ?_⟩
  · rw [h.left] at he'
    split at he'
    · exact absurd he' (by simp)
    · obtain rfl := Option.some.inj he'
      exact h.credit
  · intro e' he'
    rw [h.left] at he'
    split at he'
    · exact absurd he' (by simp)
    · obtain rfl := Option.some.inj he'
      exact (Rules.deaf_next h.next (hd _ h.held)).1
  · split at hx
    · obtain rfl := List.mem_singleton.1 hx
      exact ⟨fun htakes => hnot htakes.2, entry, h.held, h.usage⟩
    · exact absurd hx (by simp)
  · rw [h.output]
    split
    · exact suppress_sublist _
    · exact List.Sublist.refl _

/-- The moves that leave the credit alone. -/
def plainTouch : Touch → Prop
  | .looked => True
  | .told event => event ≠ .data
  | _ => False

theorem ordinary_plain : Ordinary plainTouch := ⟨trivial, nofun, nofun⟩

theorem plain_looked (s : Slot β) : Plain s s.looked :=
  ⟨fun e he => ⟨e, he, rfl⟩, id,
    ⟨[], (List.append_nil _).symm, fun _ ht => absurd ht List.not_mem_nil⟩, List.Sublist.refl _⟩

theorem plain_of_leads (h : Leads plainTouch s s') : Plain s s' := by
  refine h.invariant (Plain.refl s) fun s₁ touch s₂ ht hp hm => hp.trans ?_
  cases hm with
  | looked => exact plain_looked s₁
  | charged hs hc => exact absurd ht id
  | credited hs hb hk he hf => exact absurd ht id
  | told htook =>
    exact htook.plain fun hmem => ht (Rules.event_of_acceptInput htook.next hmem)

theorem plain_apply (s : Slot β) (event : LogicalSessionEvent) (cause : Option Error) :
    Plain s (s.apply event cause).1 := by
  by_cases hdata : event = .data
  · subst hdata
    have hsame : (s.apply .data cause).1 = s := by
      unfold apply
      split
      · rfl
      · rfl
    rw [hsame]
    exact Plain.refl s
  · exact plain_of_leads (leads_apply ordinary_plain s event cause hdata)

theorem plain_checkGeneration (s : Slot β) (generation : ℕ) :
    Plain s (s.checkGeneration generation).1 :=
  plain_of_leads (leads_checkGeneration ordinary_plain s generation)

theorem plain_drain (s : Slot β) (cause : Error) : Plain s (s.drain cause) :=
  plain_of_leads (leads_drain s cause nofun)

theorem plain_sweep (s : Slot β) : Plain s s.sweep :=
  plain_of_leads (leads_sweep ordinary_plain s)

theorem plain_admission (s : Slot β) {entry : Entry} (initialized : Except Error Unit)
    (hs : s.entry = some entry) (hopening : entry.machine.phase = .opening) :
    Plain s (s.admission entry initialized).1 :=
  plain_of_leads (leads_admission ordinary_plain s initialized hs hopening nofun)

theorem plain_checked {entry entry' : Entry} (h : s.Checked entry entry' s') : Plain s s' :=
  plain_of_leads (leads_checked ordinary_plain h)

/-- A session whose outcome is fixed takes no input. -/
theorem Over.deaf (h : s.Over) : s.Deaf := by
  intro entry he
  unfold Rules.deaf
  rw [h entry he, Bool.or_true]

/-! ## Calls that charge or return -/

/-- **Input is taken**: it is charged, and the sink is told. -/
structure Charged (s : Slot β) (bytes : ℕ) (t : ManagedSessionTransition) (s' : Slot β) :
    Prop where
  heard : ¬s.Deaf
  entry : ∃ e credit e', s.entry = some e ∧ e.credit.charge bytes = (credit, .ok ()) ∧
    s'.entry = some e' ∧ e'.credit = credit ∧ t.Reports credit
  tells : t.event = some .data
  effects : t.effects = [.acceptInput]
  shown : s'.shown = s.shown ++ [t]
  output : s'.output = s.output

/-- **`accept_input`**: the input is taken, or it is not and no input is
taken again. -/
theorem acceptInput_cases (s : Slot β) (bytes : ℕ) :
    (∃ t, (s.acceptInput bytes).2 = .ok t ∧ Charged s bytes t (s.acceptInput bytes).1) ∨
      (Plain s (s.acceptInput bytes).1 ∧ (s.acceptInput bytes).1.Deaf ∧
        ∀ t, (s.acceptInput bytes).2 = .ok t → .acceptInput ∉ t.effects) := by
  unfold acceptInput
  cases hs : s.entry with
  | none =>
    obtain ⟨heq, missing, hans⟩ := applyEvent_missing hs .data none (some bytes)
    right
    rw [heq, hans]
    exact ⟨plain_looked s, (over_of_missing hs).deaf, fun _ h => absurd h (by simp)⟩
  | some entry =>
    obtain ⟨entry', mid, hc, heq | ⟨hexp, -, refusal, heq⟩⟩ :=
      applyEvent_checked hs .data none (some bytes)
    · rw [heq]
      have hm := hc.entry hs
      rcases applyUnexpired_data_cases hm bytes with
        ⟨credit, _, t, last, hcharge, rfl, ht, heff, hans⟩ | ⟨t, last, ht, heff, hans⟩ |
        ⟨t, last, refusal, ht, hans⟩
      · have hmem : .acceptInput ∈ t.effects := by
          rw [heff]
          exact List.mem_singleton_self _
        have hhears : Rules.deaf entry'.machine.phase = false := by
          by_contra hdeaf
          exact (Rules.deaf_next ht.next (Bool.not_eq_false _ ▸ hdeaf)).2 hmem
        cases hc with
        | unexpired hnone =>
          left
          refine ⟨t, hans, ⟨fun hd => ?_, ⟨entry, credit, last, hs, hcharge, ?_, ht.credit, ht.usage⟩,
            ht.tells, heff, ?_, ?_⟩⟩
          · have hdeaf := hd entry hs
            rw [hhears] at hdeaf
            exact absurd hdeaf (by simp)
          · have hleft := ht.left
            rw [heff] at hleft
            exact hleft
          · have hshown := ht.shown
            rw [heff] at hshown
            exact hshown
          · have hout := ht.output
            rw [heff] at hout
            exact hout
        | aborted _ _ habort =>
          have hover := (habort.isOver (.inr rfl)).deaf entry' hm
          rw [hhears] at hover
          exact absurd hover (by simp)
      · have hnot : .acceptInput ∉ t.effects := by
          rw [heff]
          exact List.not_mem_nil
        refine .inr ⟨(plain_checked hc).trans (ht.plain hnot), ?_, fun t' ht' => ?_⟩
        · intro e he
          rw [ht.left, heff] at he
          obtain rfl := Option.some.inj he
          have hc := Rules.of_next (fun _ event phase' effects =>
            !(event == .data) || effects.contains .acceptInput || Rules.deaf phase')
            (by intro p e; cases p <;> cases e <;> rfl) ht.next
          rw [heff] at hc
          simpa using hc
        · rw [hans] at ht'
          obtain rfl := Except.ok.inj ht'
          exact hnot
      · have hnot : .acceptInput ∉ t.effects := fun hmem =>
          absurd (Rules.event_of_acceptInput ht.next hmem) (by simp)
        refine .inr ⟨(plain_checked hc).trans (ht.plain hnot), (ht.isOver (.inr rfl)).deaf, ?_⟩
        rw [hans]
        exact fun _ h => absurd h (by simp)
    · rw [heq]
      refine .inr ⟨plain_checked hc, ?_, fun _ h => absurd h (by simp)⟩
      cases hc with
      | unexpired hnone => exact absurd hnone hexp
      | aborted _ _ habort => exact (habort.isOver (.inr rfl)).deaf

/-- **Credit returns**, and the sink is told. -/
structure Returned (s s' : Slot β) : Prop where
  entry : ∃ e e' t, s.entry = some e ∧ s'.entry = some e' ∧
    e'.machine = e.machine ∧ (e.credit.Fine → e'.credit.Fine ∧
      e'.credit.heldBytes ≤ e.credit.heldBytes ∧ e'.credit.budgets = e.credit.budgets ∧
      e'.credit.waitingSegments.length ≤ e.credit.waitingSegments.length) ∧
    s'.shown = s.shown ++ [t] ∧ t.event = none ∧ t.Reports e'.credit
  output : s'.output = s.output

/-- **`update_credit`** by a call other than a charge. -/
theorem updateCredit_returns {update : InputCredit → InputCredit × Except Error Unit}
    (hu : Orderly update) (request : CreditCall) (hcall : ∀ c, update c = InputCredit.call c request)
    (hr : ∀ bytes, request ≠ .charge bytes) (s : Slot β) :
    Returned s (s.updateCredit update).1 ∨ Plain s (s.updateCredit update).1 := by
  cases hs : s.entry with
  | none =>
    right
    simp only [updateCredit, hs, missingSessionLocked_fst]
    exact plain_looked s
  | some entry =>
    rcases hup : update entry.credit with ⟨credit, defect | ⟨⟩⟩
    · rcases updateCredit_cases hs hu with ⟨_, _, hok, -⟩ | ⟨t, entry', _, -, ht, -⟩
      · rw [hup] at hok
        exact absurd hok (by simp)
      · exact .inr (ht.plain fun hmem => absurd (Rules.event_of_acceptInput ht.next hmem) (by simp))
    · left
      simp only [updateCredit, hs, hup, emit, Bool.true_or, if_true]
      refine ⟨⟨entry, _, _, hs, rfl, rfl, fun hfine => ?_, rfl, rfl, ⟨rfl, rfl⟩⟩, rfl⟩
      have hc : entry.credit.call request = (credit, .ok ()) := by rw [← hcall, hup]
      have hfine' : credit.Fine := by
        have hnext := hfine.call request
        rwa [hc] at hnext
      exact ⟨hfine', hfine.returned hr hc⟩

end Slot

end Serving

end Tensorplate
