import Tensorplate.Core.JobEvent

/-!
# What a sequence accepts

An accepted event leaves everything of the sequence but the mark of its
kind; a job that runs takes a `failed`, one that has ended a `released`. The
marks are those of the events that were accepted, so that the order of a
job's events can be said without the sequence.
-/

namespace Tensorplate

namespace JobEventSequence

variable {q q' : JobEventSequence} {e : JobEvent}

theorem observe_eq_ok : q.observe e = .ok q' ↔ ∃ totals, q.check e = .ok totals ∧
    q' = q.advance e totals := by
  unfold observe
  cases q.check e with
  | error err => exact ⟨nofun, fun ⟨_, h, _⟩ => nomatch h⟩
  | ok totals => exact ⟨fun h => ⟨totals, rfl, (Except.ok.inj h).symm⟩,
      fun ⟨_, h, hq⟩ => by cases h; rw [hq]; rfl⟩

@[simp] theorem advance_identity (totals : Totals) : (q.advance e totals).identity = q.identity := by
  unfold advance
  split <;> rfl

/-- Only a `released` releases. -/
theorem advance_released (he : e.body ≠ .released) (totals : Totals) :
    (q.advance e totals).released = q.released := by
  unfold advance
  split <;> first | rfl | exact absurd ‹_› he

theorem advance_terminal (ht : q.terminal = true) (totals : Totals) :
    (q.advance e totals).terminal = true := by
  unfold advance
  split <;> first | exact ht | rfl

/-- A job that runs takes a `failed`. -/
theorem check_failed (hi : e.identity = q.identity) (hr : q.released = false)
    (ht : q.terminal = false) {error : Error} (he : e.body = .failed error) :
    q.check e = .ok q.totals := by
  unfold check
  rw [if_neg (by simp [hi]), if_neg (by simp [hr]), if_neg (by simp [ht]), he]

/-- A job that has ended takes a `released`. -/
theorem check_released (hi : e.identity = q.identity) (hr : q.released = false)
    (ht : q.terminal = true) (he : e.body = .released) : q.check e = .ok q.totals := by
  unfold check
  rw [if_neg (by simp [hi]), if_neg (by simp [hr]), if_neg (by simp [he]), he]
  simp [ht]

theorem check_after_terminal (ht : q.terminal = true) (he : e.body ≠ .released) :
    ∃ err, q.check e = .error err := by
  unfold check
  by_cases h1 : e.identity ≠ q.identity
  · exact ⟨_, if_pos h1⟩
  · rw [if_neg h1]
    by_cases h2 : q.released = true
    · exact ⟨_, if_pos h2⟩
    · rw [if_neg h2, if_pos (by simp [ht, he])]
      exact ⟨_, rfl⟩

@[simp] theorem advance_progressLimit (totals : Totals) :
    (q.advance e totals).progressLimit = q.progressLimit := by
  unfold advance
  split <;> rfl

@[simp] theorem advance_cancelRequested (totals : Totals) :
    (q.advance e totals).cancelRequested = q.cancelRequested := by
  unfold advance
  split <;> rfl

/-- A result is accepted of an accepted job, a fragment in its turn. -/
theorem checkResult_eq_ok {progress : Option ℕ} {result : JobResult} {totals : Totals}
    (h : q.checkResult progress result = .ok totals) : q.accepted = true ∧
      ∀ n, progress = some n → q.cancelAcknowledged = false ∧ n = q.progressCount + 1 ∧
        n ≤ q.progressLimit := by
  unfold checkResult refused at h
  split_ifs at h with h₁ h₂ h₃ h₄ h₅
  simp only [Bool.not_eq_true', Bool.not_eq_false] at h₁
  refine ⟨h₁, fun n hn => ?_⟩
  subst hn
  simp only [Option.isSome_some, Bool.true_and, Bool.not_eq_true, decide_eq_true_eq,
    Option.all_some, Bool.not_eq_true', decide_eq_false_iff_not, not_not] at h₂ h₄ h₅
  refine ⟨h₂, h₄, ?_⟩
  omega

/-- What an accepted event says of the sequence before it. -/
theorem check_eq_ok {totals : Totals} (h : q.check e = .ok totals) :
    e.identity = q.identity ∧ q.released = false ∧ (e.body ≠ .released → q.terminal = false) ∧
      match e.body with
      | .accepted => q.observedAny = false
      | .progress n _ => q.accepted = true ∧ q.cancelAcknowledged = false ∧
          n = q.progressCount + 1 ∧ n ≤ q.progressLimit
      | .completed _ => q.accepted = true
      | .failed _ => True
      | .cancelAcknowledged => q.cancelRequested = true ∧ q.cancelAcknowledged = false
      | .released => q.terminal = true := by
  unfold check refused at h
  by_cases h₁ : e.identity ≠ q.identity
  · rw [if_pos h₁] at h
    cases h
  rw [if_neg h₁] at h
  by_cases h₂ : q.released = true
  · rw [if_pos h₂] at h
    cases h
  rw [if_neg h₂] at h
  by_cases h₃ : (q.terminal && decide (e.body ≠ .released)) = true
  · rw [if_pos h₃] at h
    cases h
  rw [if_neg h₃] at h
  rw [ne_eq, not_not] at h₁
  rw [Bool.not_eq_true] at h₂
  refine ⟨h₁, h₂, fun he => ?_, ?_⟩
  · simpa [he] using h₃
  · cases he : e.body with
    | accepted =>
      rw [he] at h
      dsimp only at h ⊢
      split_ifs at h with h₄
      exact Bool.eq_false_iff.2 h₄
    | progress n r =>
      rw [he] at h
      obtain ⟨ha, hn⟩ := checkResult_eq_ok h
      exact ⟨ha, hn n rfl⟩
    | completed r =>
      rw [he] at h
      exact (checkResult_eq_ok h).1
    | failed err => trivial
    | cancelAcknowledged =>
      rw [he] at h
      dsimp only at h ⊢
      split_ifs at h with h₄ h₅
      exact ⟨by simpa using h₄, Bool.eq_false_iff.2 h₅⟩
    | released =>
      rw [he] at h
      dsimp only at h ⊢
      split_ifs at h with h₄
      simpa using h₄

end JobEventSequence

/-! ## The order of a job's events -/

namespace JobEvent

def isProgress (e : JobEvent) : Bool :=
  match e.body with
  | .progress .. => true
  | _ => false

def isReleased (e : JobEvent) : Bool := e.body = .released

/-- **What may follow** the events a job was told so far, `limit` the most
fragments it may send. -/
def MayFollow (limit : ℕ) (past : List JobEvent) (e : JobEvent) : Prop :=
  (∀ p ∈ past, p.isReleased = false) ∧ (e.body ≠ .released → ∀ p ∈ past, p.isTerminal = false) ∧
    match e.body with
    | .accepted => past = []
    | .progress n _ => (∃ p ∈ past, p.body = .accepted) ∧
        (∀ p ∈ past, p.body ≠ .cancelAcknowledged) ∧ n = past.countP isProgress + 1 ∧ n ≤ limit
    | .completed _ => ∃ p ∈ past, p.body = .accepted
    | .failed _ => True
    | .cancelAcknowledged => ∀ p ∈ past, p.body ≠ .cancelAcknowledged
    | .released => ∃ p ∈ past, p.isTerminal = true

end JobEvent

namespace JobEventSequence

/-- The marks of a sequence are those of the events it accepted. -/
structure Replays (q : JobEventSequence) (past : List JobEvent) : Prop where
  observed : q.observedAny = false → past = []
  accepted : q.accepted = true → ∃ p ∈ past, p.body = .accepted
  acknowledged : q.cancelAcknowledged = false → ∀ p ∈ past, p.body ≠ .cancelAcknowledged
  terminal : q.terminal = past.any JobEvent.isTerminal
  released : q.released = past.any JobEvent.isReleased
  progress : q.progressCount = past.countP JobEvent.isProgress

section

variable {q q' : JobEventSequence} {e : JobEvent} {past : List JobEvent}

theorem replays_ofRequest (s : SubmittedJob) : Replays (ofRequest s) [] :=
  ⟨fun _ => rfl, nofun, nofun, rfl, rfl, rfl⟩

theorem Replays.noted (h : Replays q past) : Replays q.noteCancelRequested past :=
  ⟨h.observed, h.accepted, h.acknowledged, h.terminal, h.released, h.progress⟩

/-- **An accepted event** keeps the order. -/
theorem Replays.mayFollow (h : Replays q past) {totals : Totals} (hc : q.check e = .ok totals) :
    JobEvent.MayFollow q.progressLimit past e := by
  obtain ⟨-, hr, ht, hbody⟩ := check_eq_ok hc
  rw [h.released, List.any_eq_false] at hr
  refine ⟨fun p hp => Bool.eq_false_iff.2 (hr p hp), fun he p hp => ?_, ?_⟩
  · have := ht he
    rw [h.terminal, List.any_eq_false] at this
    exact Bool.eq_false_iff.2 (this p hp)
  · cases he : e.body with
    | accepted =>
      rw [he] at hbody
      exact h.observed hbody
    | progress n r =>
      rw [he] at hbody
      obtain ⟨ha, hca, hn, hlim⟩ := hbody
      exact ⟨h.accepted ha, h.acknowledged hca, by rw [← h.progress]; exact hn, hlim⟩
    | completed r =>
      rw [he] at hbody
      exact h.accepted hbody
    | failed err => trivial
    | cancelAcknowledged =>
      rw [he] at hbody
      exact h.acknowledged hbody.2
    | released =>
      rw [he] at hbody
      have hbody' : q.terminal = true := hbody
      rw [h.terminal, List.any_eq_true] at hbody'
      exact hbody'

theorem Replays.advance (h : Replays q past) (totals : Totals) :
    Replays (q.advance e totals) (past ++ [e]) := by
  unfold JobEventSequence.advance
  have haccepted : q.accepted = true → ∃ p ∈ past ++ [e], p.body = .accepted := by
    intro ha
    obtain ⟨p, hp, hb⟩ := h.accepted ha
    exact ⟨p, List.mem_append_left _ hp, hb⟩
  have hacknowledged : e.body ≠ .cancelAcknowledged → q.cancelAcknowledged = false →
      ∀ p ∈ past ++ [e], p.body ≠ .cancelAcknowledged := by
    intro hne hca p hp
    rcases List.mem_append.1 hp with hp | hp
    · exact h.acknowledged hca p hp
    · rw [List.mem_singleton.1 hp]
      exact hne
  cases he : e.body with
  | accepted =>
    refine ⟨nofun, fun _ => ⟨e, by simp, he⟩, hacknowledged (by rw [he]; nofun), ?_, ?_, ?_⟩
    · simp [h.terminal, JobEvent.isTerminal, he]
    · simp [h.released, JobEvent.isReleased, he]
    · simp [h.progress, JobEvent.isProgress, he]
  | cancelAcknowledged =>
    refine ⟨nofun, haccepted, nofun, ?_, ?_, ?_⟩
    · simp [h.terminal, JobEvent.isTerminal, he]
    · simp [h.released, JobEvent.isReleased, he]
    · simp [h.progress, JobEvent.isProgress, he]
  | progress n r | completed r | failed err | released =>
    refine ⟨nofun, haccepted, hacknowledged (by rw [he]; nofun), ?_, ?_, ?_⟩
    · simp [h.terminal, JobEvent.isTerminal, he]
    · simp [h.released, JobEvent.isReleased, he]
    · simp [h.progress, JobEvent.isProgress, he]

end

end JobEventSequence

end Tensorplate
