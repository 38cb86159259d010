import Tensorplate.Channel.Model.Threads

/-!
# What a call can do

One lemma for each call of the channel: it refuses and leaves the channel
as it was, up to a message id it drew, or it takes effect, and then the
checks it made hold.
-/

namespace Tensorplate

namespace Channel

open Lib

namespace JobChannel

variable {c : JobChannel}

/-- The channel behind a drawn message id. -/
def drawn (c : JobChannel) : JobChannel := { c with messages := c.messages + 1 }

/-- A call that was refused left the channel alone. -/
def Untouched (c c' : JobChannel) : Prop := c' = c ∨ c' = c.drawn

/-- `not_running_locked` lets a call through on an admitting channel only. -/
theorem notRunning_eq_none (h : c.notRunning = none) :
    c.phase = .admitting ∧ c.ended = false ∧ c.retired = false := by
  unfold notRunning at h
  split_ifs at h with h₁ h₂ h₃
  rw [not_or, ne_eq, not_not, Bool.not_eq_true] at h₃
  exact ⟨h₃.1, h₃.2, Bool.not_eq_true _ ▸ h₁⟩

/-! ## Jobs -/

/-- The job a submission adds. -/
def newJob (c : JobChannel) (s : SubmittedJob) : Job :=
  ⟨s.identity, JobEventSequence.ofRequest s, messageId c.messages, "", c.serials⟩

/-- The channel with the job of a submission in its table. -/
def withJob (c : JobChannel) (s : SubmittedJob) : JobChannel :=
  { c.drawn with
    messageJobs := c.messageJobs ++ [(messageId c.messages, s.identity.jobId)]
    jobs := c.jobs.insert s.identity.jobId (c.newJob s) }

theorem submit_cases (s : SubmittedJob) (window : Bool) (encoded : Option Error) :
    (∃ c' error, Untouched c c' ∧ c.submit s window encoded = (c', .error error)) ∨
      (c.sink = true ∧ c.sinkDetached = false ∧ c.phase = .admitting ∧ c.ended = false ∧
        c.releasing[s.identity.sessionKey]? = none ∧
        c.releasedSessions.contains s.identity.sessionKey = false ∧
        c.jobs[s.identity.jobId]? = none ∧ c.jobs.size < kMaxOpenJobs ∧
        c.submit s window encoded =
          ((c.withJob s).queueLocked .submit s.identity.jobId, .ok ())) := by
  unfold submit
  by_cases h₁ : (!c.sink || c.sinkDetached) = true
  · rw [if_pos h₁]
    exact .inl ⟨c, _, .inl rfl, rfl⟩
  rw [if_neg h₁]
  cases hn : c.notRunning with
  | some refused => exact .inl ⟨c, _, .inl rfl, rfl⟩
  | none =>
    dsimp only
    by_cases h₂ : s.jobClass ∉ c.jobClasses
    · rw [if_pos h₂]
      exact .inl ⟨c, _, .inl rfl, rfl⟩
    rw [if_neg h₂]
    by_cases h₃ : (c.releasing.contains s.identity.sessionKey ||
        c.releasedSessions.contains s.identity.sessionKey) = true
    · rw [if_pos h₃]
      exact .inl ⟨c, _, .inl rfl, rfl⟩
    rw [if_neg h₃]
    by_cases h₄ : c.jobs.contains s.identity.jobId = true
    · rw [if_pos h₄]
      exact .inl ⟨c, _, .inl rfl, rfl⟩
    rw [if_neg h₄]
    by_cases h₅ : c.jobs.size ≥ kMaxOpenJobs
    · rw [if_pos h₅]
      exact .inl ⟨c, _, .inl rfl, rfl⟩
    rw [if_neg h₅]
    cases encodeJobSubmit s (messageId c.messages) with
    | some error => exact .inl ⟨c.drawn, _, .inr rfl, rfl⟩
    | none =>
      dsimp only
      by_cases h₆ : (!window) = true
      · rw [if_pos h₆]
        exact .inl ⟨c.drawn, _, .inr rfl, rfl⟩
      rw [if_neg h₆]
      cases encoded with
      | some error => exact .inl ⟨c.drawn, _, .inr rfl, rfl⟩
      | none =>
        obtain ⟨hphase, hended, -⟩ := notRunning_eq_none hn
        simp only [Bool.not_eq_true, Bool.or_eq_false_iff, Bool.not_eq_false'] at h₁ h₃
        refine .inr ⟨h₁.1, h₁.2, hphase, hended, ?_, h₃.2, ?_, not_le.1 h₅, rfl⟩
        · rw [Table.getElem?_eq_none, ← Std.TreeMap.contains_iff_mem, h₃.1]
          exact Bool.false_ne_true
        · rw [Table.getElem?_eq_none, ← Std.TreeMap.contains_iff_mem]
          exact h₄

/-- The job behind an accepted cancel. -/
def cancelledJob (c : JobChannel) (job : Job) : Job :=
  { job with sequence := job.sequence.noteCancelRequested, cancelMessageId := messageId c.messages }

/-- The channel with the cancel of a job noted. -/
def withCancel (c : JobChannel) (jobId : ℕ) (job : Job) : JobChannel :=
  { c.drawn with
    messageJobs := c.messageJobs ++ [(messageId c.messages, jobId)]
    jobs := c.jobs.insert jobId (c.cancelledJob job) }

theorem cancel_cases (jobId : ℕ) (encoded : Option Error) :
    (∃ c' error, Untouched c c' ∧ c.cancel jobId encoded = (c', .error error)) ∨
      ∃ job, c.jobs[jobId]? = some job ∧
        ((job.sequence.terminal = true ∨ job.cancelMessageId ≠ "") ∧
            c.cancel jobId encoded = (c, .ok ()) ∨
          (job.sequence.terminal = false ∧ job.cancelMessageId = "" ∧
            c.cancel jobId encoded = ((c.withCancel jobId job).queueLocked .cancel jobId, .ok ()))) := by
  unfold cancel
  cases hj : c.jobs[jobId]? with
  | none => exact .inl ⟨c, _, .inl rfl, rfl⟩
  | some job =>
    dsimp only
    split_ifs with h₁ h₂
    · exact .inl ⟨c, _, .inl rfl, rfl⟩
    · rw [Bool.or_eq_true, decide_eq_true_iff] at h₂
      exact .inr ⟨job, rfl, .inl ⟨h₂, rfl⟩⟩
    · cases encodeJobCancel job.identity (messageId c.messages) with
      | some error => exact .inl ⟨c.drawn, _, .inr rfl, rfl⟩
      | none =>
        cases encoded with
        | some error => exact .inl ⟨c.drawn, _, .inr rfl, rfl⟩
        | none =>
          rw [Bool.not_eq_true, Bool.or_eq_false_iff, decide_eq_false_iff_not, not_not] at h₂
          exact .inr ⟨job, rfl, .inr ⟨h₂.1, h₂.2, rfl⟩⟩

/-! ## Sessions -/

/-- The channel with the release of a session pending. -/
def withRelease (c : JobChannel) (key generation : ℕ) : JobChannel :=
  { c.drawn with
    releasing := c.releasing.insert key ⟨generation, false⟩
    jobs := c.jobs.map fun _ job => noteSession key job }

/-- The channel with a key taken as released. -/
def taken (c : JobChannel) (key : ℕ) : JobChannel :=
  { c with releasedSessions := c.releasedSessions.insert key }

theorem releaseSession_cases (key generation : ℕ) (encoded : Option Error) :
    (∃ c' error, (Untouched c c' ∨ (c.live = false ∧ c.phase ≠ .idle ∧ c' = c.taken key)) ∧
        c.releaseSession key generation encoded = (c', .error error)) ∨
      (c.live = true ∧ ((c.releasing[key]? ≠ none ∨ c.releasedSessions.contains key = true) ∧
          c.releaseSession key generation encoded = (c, .ok ()) ∨
        (c.releasing[key]? = none ∧ c.releasedSessions.contains key = false ∧
          c.releasing.size < kMaxPendingSessionReleases ∧
          c.releaseSession key generation encoded =
            ((c.withRelease key generation).queueLocked .release key, .ok ())))) := by
  unfold releaseSession
  split_ifs with h₁ h₂ h₃ h₄ h₅ h₆
  · exact .inl ⟨c, _, .inl (.inl rfl), rfl⟩
  · exact .inl ⟨c, _, .inl (.inl rfl), rfl⟩
  · rw [Bool.not_eq_true'] at h₃
    exact .inl ⟨_, _, .inr ⟨h₃, h₄.1, rfl⟩, rfl⟩
  · exact .inl ⟨c, _, .inl (.inl rfl), rfl⟩
  · rw [Bool.not_eq_true', Bool.not_eq_false] at h₃
    refine .inr ⟨h₃, .inl ⟨?_, rfl⟩⟩
    rw [Bool.or_eq_true, Std.TreeMap.contains_iff_mem] at h₅
    refine h₅.imp_left fun hmem hnone => ?_
    exact Table.getElem?_eq_none.1 hnone hmem
  · exact .inl ⟨c, _, .inl (.inl rfl), rfl⟩
  · rw [Bool.not_eq_true', Bool.not_eq_false] at h₃
    dsimp only
    cases encodeSessionRelease key generation (messageId c.messages) with
    | some error => exact .inl ⟨c.drawn, _, .inl (.inr rfl), rfl⟩
    | none =>
      cases encoded with
      | some error => exact .inl ⟨c.drawn, _, .inl (.inr rfl), rfl⟩
      | none =>
        rw [Bool.not_eq_true, Bool.or_eq_false_iff] at h₅
        refine .inr ⟨h₃, .inr ⟨?_, h₅.2, not_le.1 h₆, rfl⟩⟩
        rw [Table.getElem?_eq_none, ← Std.TreeMap.contains_iff_mem, h₅.1]
        exact Bool.false_ne_true

/-! ## Exchanges and health -/

theorem exchange_cases (messageId : String) (encoded : Option Error) :
    (∃ error, c.exchange messageId encoded = (c, .error error)) ∨
      (c.phase ≠ .idle ∧ c.phase ≠ .stopped ∧ c.failure = none ∧ c.unary = none ∧
        c.exchange messageId encoded =
          ({ c.queueLocked .exchange 0 with
              unary := some ⟨c.tickets, messageId⟩, tickets := c.tickets + 1 }, .ok c.tickets)) := by
  unfold exchange
  cases encoded with
  | some error => exact .inl ⟨error, rfl⟩
  | none =>
    dsimp only
    by_cases h₁ : c.phase = .idle ∨ c.phase = .stopped
    · rw [if_pos h₁]
      exact .inl ⟨_, rfl⟩
    rw [if_neg h₁]
    cases hf : c.failure with
    | some failure => exact .inl ⟨failure, rfl⟩
    | none =>
      dsimp only
      split_ifs with h₂
      · exact .inl ⟨_, rfl⟩
      · rw [not_or] at h₁
        rw [Option.not_isSome_iff_eq_none] at h₂
        exact .inr ⟨h₁.1, h₁.2, rfl, h₂, rfl⟩

/-- A caller more waits for a probe. -/
def awaited (c : JobChannel) (i : ℕ) : JobChannel :=
  { c with probes := c.probes.modify i fun p => { p with waiting := p.waiting + 1 } }

/-- The channel with a new probe. -/
def withProbe (c : JobChannel) : JobChannel :=
  { c.drawn with
    probes := c.probes ++ [{ messageId := messageId c.messages }], probe := some c.probes.length }

theorem probeHealth_cases (encoded : Option Error) :
    (∃ c' error, Untouched c c' ∧ c.probeHealth encoded = (c', .error error)) ∨
      (∃ i, c.probeHealth encoded = (c.awaited i, .ok i)) ∨
      (c.phase = .admitting ∧ c.ended = false ∧ c.probe = none ∧ c.probeHealth encoded =
        ((c.withProbe.queueLocked .probe 0).awaited c.probes.length, .ok c.probes.length)) := by
  unfold probeHealth
  cases hn : c.notRunning with
  | some refused => exact .inl ⟨c, _, .inl rfl, rfl⟩
  | none =>
    dsimp only
    split
    · next i _ => exact .inr (.inl ⟨i, rfl⟩)
    · next hp =>
      cases encodeHealthCheck (messageId c.messages) with
      | some error => exact .inl ⟨c.drawn, _, .inr rfl, rfl⟩
      | none =>
        cases encoded with
        | some error => exact .inl ⟨c.drawn, _, .inr rfl, rfl⟩
        | none =>
          obtain ⟨hphase, hended, -⟩ := notRunning_eq_none hn
          exact .inr (.inr ⟨hphase, hended, hp, rfl⟩)

theorem start_cases (isOpen : Bool) (jobClasses : List JobClass) (threads : Bool) :
    (∃ error, c.start isOpen jobClasses threads = (c, .error error)) ∨
      ((c.phase = .idle ∨ c.phase = .stopped) ∧ c.start isOpen jobClasses threads =
        ({ c with jobClasses := jobClasses, phase := .started,
                  connection := c.connection + 1 }, .ok ())) := by
  unfold start
  split_ifs with h₁ h₂ h₃ h₄ h₅
  · exact .inl ⟨_, rfl⟩
  · exact .inl ⟨_, rfl⟩
  · exact .inl ⟨_, rfl⟩
  · exact .inl ⟨_, rfl⟩
  · exact .inl ⟨_, rfl⟩
  · refine .inr ⟨?_, rfl⟩
    by_contra hne
    exact h₂ (not_or.1 hne)

/-! ## What a call leaves -/

/-- No call of the job side moves the phase or ends the connection. -/
structure Connected (c c' : JobChannel) : Prop where
  phase : c'.phase = c.phase
  ended : c'.ended = c.ended
  connection : c'.connection = c.connection

theorem Untouched.connected {c' : JobChannel} (h : c.Untouched c') : c.Connected c' := by
  rcases h with rfl | rfl
  · exact ⟨rfl, rfl, rfl⟩
  · exact ⟨rfl, rfl, rfl⟩

theorem connected_submit (s : SubmittedJob) (window : Bool) (encoded : Option Error) :
    c.Connected (c.submit s window encoded).1 := by
  rcases submit_cases (c := c) s window encoded with ⟨c', error, hu, heq⟩ | h
  · rw [heq]
    exact hu.connected
  · rw [h.2.2.2.2.2.2.2.2]
    exact ⟨rfl, rfl, rfl⟩

theorem connected_cancel (jobId : ℕ) (encoded : Option Error) :
    c.Connected (c.cancel jobId encoded).1 := by
  rcases cancel_cases (c := c) jobId encoded with
    ⟨c', error, hu, heq⟩ | ⟨job, -, ⟨-, heq⟩ | ⟨-, -, heq⟩⟩
  · rw [heq]
    exact hu.connected
  · rw [heq]
    exact ⟨rfl, rfl, rfl⟩
  · rw [heq]
    exact ⟨rfl, rfl, rfl⟩

theorem connected_releaseSession (key generation : ℕ) (encoded : Option Error) :
    c.Connected (c.releaseSession key generation encoded).1 := by
  rcases releaseSession_cases (c := c) key generation encoded with
    ⟨c', error, hu | ⟨-, -, hu⟩, heq⟩ | ⟨-, ⟨-, heq⟩ | ⟨-, -, -, heq⟩⟩
  · rw [heq]
    exact hu.connected
  · rw [heq, hu]
    exact ⟨rfl, rfl, rfl⟩
  · rw [heq]
    exact ⟨rfl, rfl, rfl⟩
  · rw [heq]
    exact ⟨rfl, rfl, rfl⟩

theorem connected_exchange (messageId : String) (encoded : Option Error) :
    c.Connected (c.exchange messageId encoded).1 := by
  rcases exchange_cases (c := c) messageId encoded with ⟨error, heq⟩ | ⟨-, -, -, -, heq⟩
  · rw [heq]
    exact ⟨rfl, rfl, rfl⟩
  · rw [heq]
    exact ⟨rfl, rfl, rfl⟩

theorem connected_exchangeWake (ticket : ℕ) : c.Connected (c.exchangeWake ticket).1 := by
  unfold exchangeWake
  split <;> exact ⟨rfl, rfl, rfl⟩

theorem connected_probeHealth (encoded : Option Error) :
    c.Connected (c.probeHealth encoded).1 := by
  rcases probeHealth_cases (c := c) encoded with
    ⟨c', error, hu, heq⟩ | ⟨i, heq⟩ | ⟨-, -, -, heq⟩
  · rw [heq]
    exact hu.connected
  · rw [heq]
    dsimp only [awaited]
    exact ⟨rfl, rfl, rfl⟩
  · rw [heq]
    dsimp only [awaited, queueLocked, withProbe, drawn]
    exact ⟨rfl, rfl, rfl⟩

theorem connected_probeWake (i : ℕ) : c.Connected (c.probeWake i).1 := by
  unfold probeWake
  dsimp only
  split <;> exact ⟨rfl, rfl, rfl⟩

theorem connected_setEventSink (isNull : Bool) : c.Connected (c.setEventSink isNull).1 := by
  unfold setEventSink
  split_ifs <;> exact ⟨rfl, rfl, rfl⟩

theorem admitJobs_phase (c : JobChannel) : c.admitJobs.ended = c.ended ∧
    c.admitJobs.connection = c.connection ∧ (c.admitJobs.phase = c.phase ∨
      (c.phase ≠ .stopped ∧ c.admitJobs.phase ≠ .idle ∧ c.admitJobs.phase ≠ .stopped)) := by
  unfold admitJobs
  split_ifs with h
  · exact ⟨rfl, rfl, .inr ⟨by rw [h]; nofun, nofun, nofun⟩⟩
  · exact ⟨rfl, rfl, .inl rfl⟩

theorem closeAdmission_phase (c : JobChannel) : c.closeAdmission.ended = c.ended ∧
    c.closeAdmission.connection = c.connection ∧ (c.closeAdmission.phase = c.phase ∨
      (c.phase ≠ .stopped ∧ c.closeAdmission.phase ≠ .idle ∧ c.closeAdmission.phase ≠ .stopped)) := by
  unfold closeAdmission
  split_ifs with h
  · refine ⟨rfl, rfl, .inr ⟨?_, nofun, nofun⟩⟩
    rcases h with h | h
    · rw [h]
      nofun
    · rw [h]
      nofun
  · exact ⟨rfl, rfl, .inl rfl⟩

end JobChannel

end Channel

end Tensorplate
