import Tensorplate.Channel.Model.Threads
import Tensorplate.Core.JobOrder

/-!
# What the locked functions do

Every locked function of the channel is made of a few moves: a job is told
an event, a job is told that it is released and leaves the table, a session
is acknowledged, a frame or an answer changes hands. A property of the
channel and of the calls decided so far that survives each move survives
the functions.
-/

namespace Tensorplate

namespace Channel

open Lib

/-! ## Jobs that are in order -/

/-- What holds of a job in the table. -/
structure JobSound (c : JobChannel) (k : ℕ) (job : Job) : Prop where
  id : job.identity.jobId = k
  valid : JobRequest.validateIdentity job.identity = .ok ()
  judged : job.sequence.identity = job.identity
  unreleased : job.sequence.released = false
  numbered : job.serial < c.serials

/-- What the channel's fields say of each other. -/
structure Sound (c : JobChannel) : Prop where
  job : ∀ {k : ℕ} {job : Job}, c.jobs[k]? = some job → JobSound c k job
  serials : ∀ {k k' : ℕ} {job job' : Job}, c.jobs[k]? = some job → c.jobs[k']? = some job' →
    job.serial = job'.serial → k = k'
  /-- An ended connection has no exchange, no probe and no job under way. -/
  ended : c.ended = true → c.failure.isSome = true ∧ c.unary = none ∧ c.probe = none ∧
    ∀ {k : ℕ} {job : Job}, c.jobs[k]? = some job → job.sequence.terminal = true
  /-- A channel that is not started holds nothing. -/
  quiet : c.phase = .idle ∨ c.phase = .stopped → (∀ k : ℕ, c.jobs[k]? = none) ∧
    (∀ k : ℕ, c.releasing[k]? = none) ∧ c.unary = none ∧ c.probe = none ∧ c.ended = false

/-! ## Events the channel makes itself -/

theorem cutChars_size (room : ℕ) (cs : List Char) :
    (String.ofList (cutChars room cs)).utf8ByteSize ≤ room := by
  induction cs generalizing room with
  | nil => simp [cutChars]
  | cons c cs ih =>
    rw [cutChars]
    split_ifs with h
    · have := ih (room - c.utf8Size)
      rw [String.ofList_cons, String.utf8ByteSize_append]
      simp
      omega
    · simp

theorem fits_cut (text : String) : JobEvent.fits (cutToJobErrorBound text) = true :=
  decide_eq_true (cutChars_size _ _)

/-- A bounded error makes a `failed` event of every valid identity. -/
theorem failed_bounded {identity : JobIdentity}
    (h : JobRequest.validateIdentity identity = .ok ()) (error : Error) :
    JobEvent.failed identity (bounded error) = .ok ⟨identity, .failed (bounded error)⟩ := by
  have hfits : ((!JobEvent.fits (bounded error).message ||
      !(bounded error).context.all JobEvent.fits) = true) = False := by
    have hm : JobEvent.fits (bounded error).message = true := fits_cut _
    have hc : (bounded error).context.all JobEvent.fits = true := by
      show (error.context.map cutToJobErrorBound).all JobEvent.fits = true
      cases error.context with
      | none => rfl
      | some text => exact fits_cut text
    rw [hm, hc]
    simp
  unfold JobEvent.failed
  rw [h]
  simp only [hfits, if_false]
  rfl

theorem released_valid {identity : JobIdentity}
    (h : JobRequest.validateIdentity identity = .ok ()) :
    JobEvent.released identity = .ok ⟨identity, .released⟩ := by
  unfold JobEvent.released
  rw [h]
  rfl

section

variable {c : JobChannel} {k : ℕ} {job : Job}

/-- `fail_locked` tells a job that has ended nothing. -/
theorem toldFailed_terminal (hs : JobSound c k job) (ht : job.sequence.terminal = true)
    (error : Error) : job.toldFailed error = none := by
  obtain ⟨err, herr⟩ := JobEventSequence.check_after_terminal ht
    (e := ⟨job.identity, .failed (bounded error)⟩) nofun
  unfold Job.toldFailed Job.told JobEventSequence.observe
  rw [failed_bounded hs.valid]
  simp only [herr]
  rfl

/-- `fail_locked` tells a job that runs, and the job has ended. -/
theorem toldFailed_running (hs : JobSound c k job) (ht : job.sequence.terminal = false)
    (error : Error) : ∃ e q, job.sequence.observe e = .ok q ∧ e.body = .failed (bounded error) ∧
      q.terminal = true ∧ job.toldFailed error = some (e, q) := by
  have hcheck : job.sequence.check ⟨job.identity, .failed (bounded error)⟩ = .ok _ :=
    JobEventSequence.check_failed hs.judged.symm hs.unreleased ht rfl
  have hobs : job.sequence.observe ⟨job.identity, .failed (bounded error)⟩ = .ok _ :=
    JobEventSequence.observe_eq_ok.2 ⟨_, hcheck, rfl⟩
  refine ⟨_, _, hobs, rfl, rfl, ?_⟩
  unfold Job.toldFailed Job.told
  rw [failed_bounded hs.valid]
  simp only [hobs]

/-- `release_locked` of a job that has ended tells it and erases it. -/
theorem releaseLocked_terminal (hs : JobSound c k job) (ht : job.sequence.terminal = true) :
    ∃ e q, job.sequence.observe e = .ok q ∧ e.body = .released ∧ e.identity = job.identity ∧
      c.releaseLocked k job =
        (((c.setSequence k job q).forgetLocked k { job with sequence := q }).1,
          .event job.serial e ::
            ((c.setSequence k job q).forgetLocked k { job with sequence := q }).2) := by
  have hcheck : job.sequence.check ⟨job.identity, .released⟩ = .ok _ :=
    JobEventSequence.check_released hs.judged.symm hs.unreleased ht rfl
  have hobs : job.sequence.observe ⟨job.identity, .released⟩ = .ok _ :=
    JobEventSequence.observe_eq_ok.2 ⟨_, hcheck, rfl⟩
  refine ⟨_, _, hobs, rfl, rfl, ?_⟩
  unfold JobChannel.releaseLocked Job.told
  rw [released_valid hs.valid]
  simp only [hobs]

end

/-! ## Moves -/

/-- **A property that survives every move** of a connection; `D` is the list
of the sink calls decided so far. -/
structure Moves (I : JobChannel → List Delivery → Prop) : Prop where
  sound : ∀ {c D}, I c D → Sound c
  named : ∀ {c D id j}, I c D → c.messageJobs.lookup id = some j →
    ∃ job, c.jobs[j]? = some job
  told : ∀ {c D} {k : ℕ} {job : Job} {e q}, I c D → c.jobs[k]? = some job →
    job.sequence.observe e = .ok q → e.body ≠ .released →
    I (c.setSequence k job q) (D ++ [.event job.serial e])
  gone : ∀ {c D} {k : ℕ} {job : Job} {e q}, I c D → c.jobs[k]? = some job →
    job.sequence.observe e = .ok q → e.body = .released →
    I ((c.setSequence k job q).eraseJob k { job with sequence := q })
      (D ++ [.event job.serial e])
  acknowledged : ∀ {c D} {key : ℕ} {p : PendingRelease}, I c D → c.releasing[key]? = some p →
    (∀ {k : ℕ} {job : Job}, c.jobs[k]? = some job → job.identity.sessionKey ≠ key) →
    I (c.acknowledgeLocked key p).1 (D ++ [.sessionReleased key p.generation])
  marked : ∀ {c D} {key : ℕ} {p : PendingRelease}, I c D → c.releasing[key]? = some p →
    I { c with releasing := c.releasing.insert key { p with acknowledged := true } } D
  jobDropped : ∀ {c D}, I c D → I c.dropJobMessage D
  otherDropped : ∀ {c D}, I c D → I c.dropOtherMessage D
  unaryAnswered : ∀ {c D} (outcome), I c D → I (c.answerUnary outcome) D
  probeEnded : ∀ {c D} (outcome), I c D → I (c.endProbeLocked outcome) D

/-- **A property that survives every move**, the end of a connection and a
stop among them. -/
structure Kept (I : JobChannel → List Delivery → Prop) : Prop extends Moves I where
  ended : ∀ {c D} (failure), I c D → c.phase ≠ .idle → c.phase ≠ .stopped → c.unary = none →
    c.probe = none → (∀ {k : ℕ} {job : Job}, c.jobs[k]? = some job → job.sequence.terminal = true) →
    I { c with failure := some failure, ended := true } D
  stopped : ∀ {c D}, I c D → c.unary = none → c.probe = none → (∀ k : ℕ, c.jobs[k]? = none) →
    (∀ k : ℕ, c.releasing[k]? = none) →
    I { c with failure := none, writeFailure := none, ended := false, stopping := false,
               phase := .stopped } D

/-! ## Which jobs a move leaves -/

section

variable (c : JobChannel) (k a key : ℕ) (job : Job) (q : JobEventSequence)

theorem jobs_setSequence : (c.setSequence k job q).jobs[a]? =
    if k = a then some { job with sequence := q } else c.jobs[a]? :=
  Table.getElem?_insert

theorem jobs_eraseJob : (c.eraseJob k job).jobs[a]? = if k = a then none else c.jobs[a]? :=
  Table.getElem?_erase

theorem jobs_settleLocked : (c.settleLocked key).1.jobs = c.jobs := by
  unfold JobChannel.settleLocked
  split
  · rfl
  · split <;> rfl

theorem jobs_forgetLocked :
    (c.forgetLocked k job).1.jobs[a]? = if k = a then none else c.jobs[a]? := by
  unfold JobChannel.forgetLocked
  rw [jobs_settleLocked, jobs_eraseJob]

end

section

variable {c : JobChannel} {k : ℕ} {job : Job}

theorem jobs_failLocked (hs : Sound c) (hj : c.jobs[k]? = some job) (error : Error) (a : ℕ) :
    (c.failLocked k job error).1.jobs[a]? =
      if k = a then some (job.afterFail error) else c.jobs[a]? := by
  cases ht : job.sequence.terminal with
  | true =>
    unfold JobChannel.failLocked Job.afterFail
    rw [toldFailed_terminal (hs.job hj) ht]
    by_cases h : k = a
    · rw [if_pos h, ← h, hj]
    · rw [if_neg h]
  | false =>
    obtain ⟨e, q, -, -, -, htold⟩ := toldFailed_running (hs.job hj) ht error
    unfold JobChannel.failLocked Job.afterFail
    rw [htold]
    exact jobs_setSequence c k a job q

/-- Behind `fail_locked` a job has ended. -/
theorem afterFail_terminal (hs : JobSound c k job) (error : Error) :
    (job.afterFail error).sequence.terminal = true := by
  unfold Job.afterFail
  cases ht : job.sequence.terminal with
  | true =>
    rw [toldFailed_terminal hs ht]
    exact ht
  | false =>
    obtain ⟨e, q, -, -, hq, htold⟩ := toldFailed_running hs ht error
    rw [htold]
    exact hq

theorem jobs_releaseLocked (hs : JobSound c k job) (ht : job.sequence.terminal = true) (a : ℕ) :
    (c.releaseLocked k job).1.jobs[a]? = if k = a then none else c.jobs[a]? := by
  obtain ⟨e, q, -, -, -, heq⟩ := releaseLocked_terminal hs ht
  rw [heq, jobs_forgetLocked, jobs_setSequence]
  by_cases h : k = a
  · rw [if_pos h, if_pos h]
  · rw [if_neg h, if_neg h, if_neg h]

end

namespace Moves

variable {I : JobChannel → List Delivery → Prop} (K : Moves I)
variable {c : JobChannel} {D : List Delivery} {k : ℕ} {job : Job}

include K

theorem settle (h : I c D) (key : ℕ) : I (c.settleLocked key).1 (D ++ (c.settleLocked key).2) := by
  unfold JobChannel.settleLocked
  cases hp : c.releasing[key]? with
  | none => simpa using h
  | some p =>
    dsimp only
    split_ifs with hcond
    · simpa using h
    · refine K.acknowledged h hp fun {k job} hj hkey => hcond ?_
      rw [Bool.or_eq_true, List.any_eq_true]
      exact .inr ⟨job, Table.mem_values.2 ⟨k, hj⟩, by simpa using hkey⟩

theorem forget {e : JobEvent} {q : JobEventSequence} (h : I c D) (hj : c.jobs[k]? = some job)
    (ho : job.sequence.observe e = .ok q) (he : e.body = .released) :
    I ((c.setSequence k job q).forgetLocked k { job with sequence := q }).1
      (D ++ .event job.serial e ::
        ((c.setSequence k job q).forgetLocked k { job with sequence := q }).2) := by
  have hsettled := K.settle (K.gone h hj ho he) job.identity.sessionKey
  rw [List.append_assoc, List.singleton_append] at hsettled
  exact hsettled

theorem fail (h : I c D) (hj : c.jobs[k]? = some job) (error : Error) :
    I (c.failLocked k job error).1 (D ++ (c.failLocked k job error).2) := by
  unfold JobChannel.failLocked
  cases ht : job.sequence.terminal with
  | true =>
    rw [toldFailed_terminal ((K.sound h).job hj) ht]
    simpa using h
  | false =>
    obtain ⟨e, q, ho, he, -, htold⟩ := toldFailed_running ((K.sound h).job hj) ht error
    rw [htold]
    exact K.told h hj ho (by rw [he]; nofun)

theorem release (h : I c D) (hj : c.jobs[k]? = some job) (ht : job.sequence.terminal = true) :
    I (c.releaseLocked k job).1 (D ++ (c.releaseLocked k job).2) := by
  obtain ⟨e, q, ho, he, -, heq⟩ := releaseLocked_terminal ((K.sound h).job hj) ht
  rw [heq]
  exact K.forget h hj ho he

/-- A job fails and is released. -/
theorem failRelease (h : I c D) (hj : c.jobs[k]? = some job) (error : Error) :
    I ((c.failLocked k job error).1.releaseLocked k (job.afterFail error)).1
      (D ++ ((c.failLocked k job error).2 ++
        ((c.failLocked k job error).1.releaseLocked k (job.afterFail error)).2)) := by
  have hs := K.sound h
  rw [← List.append_assoc]
  refine K.release (K.fail h hj error) ?_ (afterFail_terminal (hs.job hj) error)
  rw [jobs_failLocked hs hj, if_pos rfl]

theorem admitEvent (h : I c D) (event : JobEvent) :
    I (c.admitLocked event).1 (D ++ (c.admitLocked event).2.1) := by
  unfold JobChannel.admitLocked
  dsimp only
  generalize c.unloadedLocked event = event
  cases hj : c.jobs[event.identity.jobId]? with
  | none => simpa using K.jobDropped h
  | some job =>
    dsimp only
    cases ho : job.sequence.observe event with
    | error refusedWith =>
      dsimp only
      split_ifs with h₁ h₂
      · simpa using K.jobDropped h
      · exact K.fail h hj refusedWith
      · exact K.failRelease h hj refusedWith
    | ok q =>
      dsimp only
      split_ifs with he
      · exact K.forget h hj ho he
      · exact K.told h hj ho he

theorem fault (h : I c D) (jobId : ℕ) (error : Error) (session : Option SessionName) :
    I (c.faultLocked jobId error session).1 (D ++ (c.faultLocked jobId error session).2) := by
  have hcounted : I (if jobId ≠ 0 ∨ session.isSome = true then c.dropJobMessage
      else c.dropOtherMessage) D := by
    split_ifs
    · exact K.jobDropped h
    · exact K.otherDropped h
  unfold JobChannel.faultLocked
  cases hj : c.jobs[jobId]? with
  | none => simpa using hcounted
  | some job =>
    dsimp only
    by_cases ht : job.sequence.terminal = true
    · rw [if_pos ht]
      simpa using hcounted
    · rw [if_neg ht]
      exact K.fail h hj error

theorem sessionReleased (h : I c D) (key generation : ℕ) :
    I (c.releasedLocked key generation).1 (D ++ (c.releasedLocked key generation).2) := by
  unfold JobChannel.releasedLocked
  cases hp : c.releasing[key]? with
  | none => simpa using K.jobDropped h
  | some p =>
    dsimp only
    split_ifs
    · simpa using K.jobDropped h
    · exact K.settle (K.marked h hp) key

theorem answerProbe (h : I c D) (outcome : Except Error Unit) :
    I (c.answerProbeLocked outcome) D := by
  unfold JobChannel.answerProbeLocked
  dsimp only
  split_ifs
  · exact K.probeEnded outcome (K.otherDropped h)
  · exact K.probeEnded outcome h

theorem offerUnary (h : I c D) (frame : SidecarFrame) (messageId : Option String) :
    I (c.offerUnaryLocked frame messageId) D := by
  unfold JobChannel.offerUnaryLocked
  split
  · exact K.otherDropped h
  · split_ifs
    · exact K.unaryAnswered _ h
    · exact K.otherDropped h

theorem refuseJob (h : I c D) {jobId : ℕ} (hj : c.jobs[jobId]? = some job) (messageId : String)
    (error : Error) : I (c.refuseJobLocked jobId messageId error).1
      (D ++ (c.refuseJobLocked jobId messageId error).2) := by
  unfold JobChannel.refuseJobLocked
  rw [hj]
  dsimp only
  split_ifs
  · simpa using K.jobDropped h
  · exact K.failRelease h hj error

theorem refuse (h : I c D) (messageId : String) (error : Error) (frame : SidecarFrame) :
    I (c.refuseLocked messageId error frame).1 (D ++ (c.refuseLocked messageId error frame).2) := by
  unfold JobChannel.refuseLocked
  cases hm : c.messageJobs.lookup messageId with
  | none =>
    dsimp only
    split_ifs
    · simpa using K.answerProbe h _
    · simpa using K.offerUnary h frame _
  | some jobId =>
    obtain ⟨job, hj⟩ := K.named h hm
    exact K.refuseJob h hj messageId error

/-- **A frame is routed.** -/
theorem route (h : I c D) (message : SidecarJobMessage) (frame : SidecarFrame)
    (health : Except Error Unit) :
    I (c.routeLocked message frame health).1 (D ++ (c.routeLocked message frame health).2.1) := by
  cases message with
  | event e => exact K.admitEvent h e
  | fault jobId error session => exact K.fault h jobId error session
  | sessionReleased key generation => exact K.sessionReleased h key generation
  | refused messageId error => exact K.refuse h messageId error frame
  | notJob messageId =>
    show I (c.offerOtherLocked messageId frame health) (D ++ [])
    rw [List.append_nil]
    unfold JobChannel.offerOtherLocked
    split_ifs
    · exact K.answerProbe h health
    · exact K.offerUnary h frame none

/-- The jobs of the list fail one after another. -/
theorem failJobs (error : Error) {jobs : List (ℕ × Job)} :
    ∀ {c : JobChannel} {D : List Delivery}, I c D → (jobs.map Prod.fst).Nodup →
      (∀ p ∈ jobs, c.jobs[p.1]? = some p.2) →
      I (c.failJobs error jobs).1 (D ++ (c.failJobs error jobs).2) ∧
        (∀ a : ℕ, (c.failJobs error jobs).1.jobs[a]? =
          if a ∈ jobs.map Prod.fst then (c.jobs[a]?).map (·.afterFail error) else c.jobs[a]?) := by
  induction jobs with
  | nil =>
    intro c D h _ _
    exact ⟨by simpa [JobChannel.failJobs] using h, fun a => by simp [JobChannel.failJobs]⟩
  | cons p rest ih =>
    intro c D h hd hall
    obtain ⟨k, job⟩ := p
    obtain ⟨hnot, hd'⟩ := List.nodup_cons.1 hd
    have hj : c.jobs[k]? = some job := hall (k, job) List.mem_cons_self
    have hafter := jobs_failLocked (K.sound h) hj error
    have hrest : ∀ p ∈ rest, (c.failLocked k job error).1.jobs[p.1]? = some p.2 := by
      intro p hp
      have hmem : p.1 ∈ rest.map Prod.fst := List.mem_map_of_mem hp
      have hne : k ≠ p.1 := fun heq => hnot (show k ∈ _ from heq ▸ hmem)
      rw [hafter, if_neg hne]
      exact hall p (List.mem_cons_of_mem _ hp)
    obtain ⟨hI, hjobs⟩ := ih (K.fail h hj error) hd' hrest
    refine ⟨?_, fun a => ?_⟩
    · rw [List.append_assoc] at hI
      exact hI
    · show ((c.failLocked k job error).1.failJobs error rest).1.jobs[a]? = _
      rw [hjobs, hafter, List.map_cons]
      by_cases hk : k = a
      · subst hk
        rw [if_neg hnot, if_pos rfl, if_pos List.mem_cons_self, hj, Option.map_some]
      · rw [if_neg hk]
        simp only [List.mem_cons, Ne.symm hk, false_or]

/-- Every job of the table fails. -/
theorem failAll (h : I c D) (error : Error) :
    I (c.failJobs error c.jobs.toList).1 (D ++ (c.failJobs error c.jobs.toList).2) ∧
      ∀ {k : ℕ} {job : Job}, (c.failJobs error c.jobs.toList).1.jobs[k]? = some job →
        job.sequence.terminal = true := by
  obtain ⟨hI, hjobs⟩ := K.failJobs error h Table.nodup_toList fun p hp => Table.mem_toList.1 hp
  refine ⟨hI, fun {k job} hj => ?_⟩
  rw [hjobs] at hj
  cases hk : c.jobs[k]? with
  | none =>
    rw [hk] at hj
    split_ifs at hj
    · cases hj
  | some job₀ =>
    rw [if_pos (Table.mem_map_toList.2 ⟨job₀, hk⟩), hk, Option.map_some, Option.some_inj] at hj
    rw [← hj]
    exact afterFail_terminal ((K.sound h).job hk) error

end Moves

/-! ## The end of a connection -/

section

variable (c : JobChannel) (error failure : Error)

/-- Failing jobs does not look at the connection's failure. -/
theorem failJobs_ended (jobs : List (ℕ × Job)) :
    JobChannel.failJobs { c with failure := some failure, ended := true } error jobs =
      ({ (c.failJobs error jobs).1 with failure := some failure, ended := true },
        (c.failJobs error jobs).2) := by
  induction jobs generalizing c with
  | nil => rfl
  | cons p rest ih =>
    obtain ⟨k, job⟩ := p
    unfold JobChannel.failJobs
    have hfail : JobChannel.failLocked { c with failure := some failure, ended := true } k job error =
        ({ (c.failLocked k job error).1 with failure := some failure, ended := true },
          (c.failLocked k job error).2) := by
      unfold JobChannel.failLocked
      split <;> rfl
    rw [hfail]
    dsimp only
    rw [ih]

/-- The channel without the exchange that waits and the probe. -/
def unanswered (c : JobChannel) (failure : Error) : JobChannel :=
  (c.answerUnary (.error failure)).endProbeLocked
    (.error (refusal .unavailable "backend_unavailable"))

theorem answerUnary_ended (outcome : Except Error SidecarFrame) :
    JobChannel.answerUnary { c with failure := some failure, ended := true } outcome =
      { c.answerUnary outcome with failure := some failure, ended := true } := by
  unfold JobChannel.answerUnary
  cases hu : c.unary with
  | none => simp only [hu]
  | some waiter => rfl

theorem endProbeLocked_ended (outcome : Except Error Unit) :
    JobChannel.endProbeLocked { c with failure := some failure, ended := true } outcome =
      { c.endProbeLocked outcome with failure := some failure, ended := true } := by
  unfold JobChannel.endProbeLocked
  cases hp : c.probe with
  | none => simp only [hp]
  | some i => rfl

/-- `end_connection` answers, fails every job and only then counts as
ended: no step of it looks. -/
theorem endLocked_eq : c.endLocked error =
    let failure := c.writeFailure.getD error
    let c' := unanswered c failure
    ({ (c'.failJobs c'.endedError c'.jobs.toList).1 with failure := some failure, ended := true },
      (c'.failJobs c'.endedError c'.jobs.toList).2) := by
  unfold JobChannel.endLocked unanswered
  dsimp only
  rw [answerUnary_ended, endProbeLocked_ended]
  exact failJobs_ended _ _ _ _

end


section

variable {c : JobChannel}

@[simp] theorem unary_unanswered (failure : Error) : (unanswered c failure).unary = none := by
  unfold unanswered JobChannel.endProbeLocked JobChannel.answerUnary
  cases hu : c.unary with
  | none =>
    dsimp only
    split
    · exact hu
    · exact hu
  | some waiter =>
    dsimp only
    split <;> rfl

@[simp] theorem probe_unanswered (failure : Error) : (unanswered c failure).probe = none := by
  unfold unanswered
  generalize c.answerUnary (.error failure) = c
  unfold JobChannel.endProbeLocked
  split
  · next h => exact h
  · rfl

/-- Neither the end of an exchange nor a job's failure moves the phase. -/
theorem phase_unanswered (failure : Error) : (unanswered c failure).phase = c.phase := by
  unfold unanswered JobChannel.endProbeLocked JobChannel.answerUnary
  split <;> split <;> rfl

theorem failJobs_frame (error : Error) (jobs : List (ℕ × Job)) :
    (c.failJobs error jobs).1.phase = c.phase ∧ (c.failJobs error jobs).1.unary = c.unary ∧
      (c.failJobs error jobs).1.probe = c.probe := by
  induction jobs generalizing c with
  | nil => exact ⟨rfl, rfl, rfl⟩
  | cons p rest ih =>
    obtain ⟨k, job⟩ := p
    have hfail : (c.failLocked k job error).1.phase = c.phase ∧
        (c.failLocked k job error).1.unary = c.unary ∧
        (c.failLocked k job error).1.probe = c.probe := by
      unfold JobChannel.failLocked
      split <;> exact ⟨rfl, rfl, rfl⟩
    obtain ⟨h₁, h₂, h₃⟩ := @ih (c.failLocked k job error).1
    exact ⟨h₁.trans hfail.1, h₂.trans hfail.2.1, h₃.trans hfail.2.2⟩

end

/-- A connection that ends stays in its phase. -/
theorem endLocked_frame (c : JobChannel) (error : Error) :
    (c.endLocked error).1.phase = c.phase ∧ (c.endLocked error).1.ended = true := by
  rw [endLocked_eq]
  dsimp only
  refine ⟨?_, rfl⟩
  rw [(failJobs_frame _ _).1, phase_unanswered]

/-- **The connection ends.** -/
theorem Kept.endConnection {I : JobChannel → List Delivery → Prop} (K : Kept I) {c : JobChannel}
    {D : List Delivery} (h : I c D) (hi : c.phase ≠ .idle) (hs : c.phase ≠ .stopped)
    (error : Error) : I (c.endLocked error).1 (D ++ (c.endLocked error).2) := by
  rw [endLocked_eq]
  dsimp only
  generalize c.writeFailure.getD error = failure
  have h' : I (unanswered c failure) D := K.probeEnded _ (K.unaryAnswered _ h)
  obtain ⟨hI, hterm⟩ := K.failAll h' (unanswered c failure).endedError
  obtain ⟨hp, hu, hpr⟩ := failJobs_frame (c := unanswered c failure)
    (unanswered c failure).endedError (unanswered c failure).jobs.toList
  refine K.ended failure hI ?_ ?_ (by rw [hu, unary_unanswered]) (by rw [hpr, probe_unanswered])
    hterm
  · rw [hp, phase_unanswered]
    exact hi
  · rw [hp, phase_unanswered]
    exact hs

/-! ## The stop -/

section

variable (c : JobChannel) (k a key : ℕ) (job : Job) (p : PendingRelease)

theorem releasing_acknowledgeLocked :
    (c.acknowledgeLocked key p).1.releasing[a]? = if key = a then none else c.releasing[a]? :=
  Table.getElem?_erase

end

namespace Moves

variable {I : JobChannel → List Delivery → Prop} (K : Moves I)

include K

/-- The jobs of the list are released one after another. -/
theorem releaseJobs {jobs : List (ℕ × Job)} :
    ∀ {c : JobChannel} {D : List Delivery}, I c D → (jobs.map Prod.fst).Nodup →
      (∀ p ∈ jobs, c.jobs[p.1]? = some p.2 ∧ p.2.sequence.terminal = true) →
      I (c.releaseJobs jobs).1 (D ++ (c.releaseJobs jobs).2) ∧
        ∀ a : ℕ, (c.releaseJobs jobs).1.jobs[a]? =
          if a ∈ jobs.map Prod.fst then none else c.jobs[a]? := by
  induction jobs with
  | nil =>
    intro c D h _ _
    exact ⟨by simpa [JobChannel.releaseJobs] using h, fun a => by simp [JobChannel.releaseJobs]⟩
  | cons p rest ih =>
    intro c D h hd hall
    obtain ⟨k, job⟩ := p
    obtain ⟨hnot, hd'⟩ := List.nodup_cons.1 hd
    obtain ⟨hj, ht⟩ : c.jobs[k]? = some job ∧ job.sequence.terminal = true :=
      hall (k, job) List.mem_cons_self
    have hafter := jobs_releaseLocked ((K.sound h).job hj) ht
    have hrest : ∀ p ∈ rest, (c.releaseLocked k job).1.jobs[p.1]? = some p.2 ∧
        p.2.sequence.terminal = true := by
      intro p hp
      have hmem : p.1 ∈ rest.map Prod.fst := List.mem_map_of_mem hp
      have hne : k ≠ p.1 := fun heq => hnot (show k ∈ _ from heq ▸ hmem)
      rw [hafter, if_neg hne]
      exact hall p (List.mem_cons_of_mem _ hp)
    obtain ⟨hI, hjobs⟩ := ih (K.release h hj ht) hd' hrest
    refine ⟨?_, fun a => ?_⟩
    · rw [List.append_assoc] at hI
      exact hI
    · show ((c.releaseLocked k job).1.releaseJobs rest).1.jobs[a]? = _
      rw [hjobs, hafter, List.map_cons]
      by_cases hk : k = a
      · subst hk
        rw [if_neg hnot, if_pos rfl, if_pos List.mem_cons_self]
      · rw [if_neg hk]
        simp only [List.mem_cons, Ne.symm hk, false_or]

/-- The pending releases of the list are acknowledged one after another,
once no job is left. -/
theorem acknowledgeAll {pending : List (ℕ × PendingRelease)} :
    ∀ {c : JobChannel} {D : List Delivery}, I c D → (pending.map Prod.fst).Nodup →
      (∀ p ∈ pending, c.releasing[p.1]? = some p.2) → (∀ k : ℕ, c.jobs[k]? = none) →
      I (c.acknowledgeAll pending).1 (D ++ (c.acknowledgeAll pending).2) ∧
        (c.acknowledgeAll pending).1.jobs = c.jobs ∧
        (c.acknowledgeAll pending).1.unary = c.unary ∧
        (c.acknowledgeAll pending).1.probe = c.probe ∧
        ∀ a : ℕ, (c.acknowledgeAll pending).1.releasing[a]? =
          if a ∈ pending.map Prod.fst then none else c.releasing[a]? := by
  induction pending with
  | nil =>
    intro c D h _ _ _
    refine ⟨by simpa [JobChannel.acknowledgeAll] using h, rfl, rfl, rfl, fun a => ?_⟩
    simp [JobChannel.acknowledgeAll]
  | cons p rest ih =>
    intro c D h hd hall hnone
    obtain ⟨key, p⟩ := p
    obtain ⟨hnot, hd'⟩ := List.nodup_cons.1 hd
    have hp : c.releasing[key]? = some p := hall (key, p) List.mem_cons_self
    have hafter := fun a => releasing_acknowledgeLocked c a key p
    have hrest : ∀ p' ∈ rest, (c.acknowledgeLocked key p).1.releasing[p'.1]? = some p'.2 := by
      intro p' hp'
      have hmem : p'.1 ∈ rest.map Prod.fst := List.mem_map_of_mem hp'
      have hne : key ≠ p'.1 := fun heq => hnot (show key ∈ _ from heq ▸ hmem)
      rw [hafter, if_neg hne]
      exact hall p' (List.mem_cons_of_mem _ hp')
    have hI₁ := K.acknowledged h hp fun {k job} hj => by rw [hnone k] at hj; cases hj
    obtain ⟨hI, hjobs, hu, hpr, hrel⟩ := ih hI₁ hd' hrest hnone
    refine ⟨?_, hjobs, hu, hpr, fun a => ?_⟩
    · rw [List.append_assoc] at hI
      exact hI
    · show ((c.acknowledgeLocked key p).1.acknowledgeAll rest).1.releasing[a]? = _
      rw [hrel, hafter, List.map_cons]
      by_cases hk : key = a
      · subst hk
        rw [if_neg hnot, if_pos rfl, if_pos List.mem_cons_self]
      · rw [if_neg hk]
        simp only [List.mem_cons, Ne.symm hk, false_or]

end Moves

theorem releaseLocked_frame (c : JobChannel) (k : ℕ) (job : Job) :
    (c.releaseLocked k job).1.unary = c.unary ∧ (c.releaseLocked k job).1.probe = c.probe := by
  have hforget : ∀ (c : JobChannel) (job : Job), (c.forgetLocked k job).1.unary = c.unary ∧
      (c.forgetLocked k job).1.probe = c.probe := by
    intro c job
    unfold JobChannel.forgetLocked JobChannel.settleLocked
    split
    · exact ⟨rfl, rfl⟩
    · split <;> exact ⟨rfl, rfl⟩
  unfold JobChannel.releaseLocked
  split
  · exact hforget c job
  · exact hforget _ _

theorem releaseJobs_frame (c : JobChannel) (jobs : List (ℕ × Job)) :
    (c.releaseJobs jobs).1.unary = c.unary ∧ (c.releaseJobs jobs).1.probe = c.probe := by
  induction jobs generalizing c with
  | nil => exact ⟨rfl, rfl⟩
  | cons p rest ih =>
    obtain ⟨k, job⟩ := p
    obtain ⟨h₁, h₂⟩ := releaseLocked_frame c k job
    obtain ⟨h₃, h₄⟩ := ih (c.releaseLocked k job).1
    exact ⟨h₃.trans h₁, h₄.trans h₂⟩

/-- **The channel is stopped**: nothing is left of an ended connection. -/
theorem Kept.stop {I : JobChannel → List Delivery → Prop} (K : Kept I) {c : JobChannel}
    {D : List Delivery} (h : I c D) (he : c.ended = true) :
    I c.stopLocked.1 (D ++ c.stopLocked.2) := by
  obtain ⟨-, hu, hpr, hterm⟩ := (K.sound h).ended he
  obtain ⟨hI, hjobs⟩ := K.releaseJobs h Table.nodup_toList fun p hp =>
    ⟨Table.mem_toList.1 hp, hterm (Table.mem_toList.1 hp)⟩
  have hnone : ∀ k : ℕ, (c.releaseJobs c.jobs.toList).1.jobs[k]? = none := by
    intro k
    rw [hjobs]
    cases hk : c.jobs[k]? with
    | none => split_ifs <;> rfl
    | some job => rw [if_pos (Table.mem_map_toList.2 ⟨job, hk⟩)]
  obtain ⟨hu', hpr'⟩ := releaseJobs_frame c c.jobs.toList
  obtain ⟨hI', hjobs', hu'', hpr'', hrel⟩ := K.acknowledgeAll hI Table.nodup_toList
    (fun p hp => Table.mem_toList.1 hp) hnone
  unfold JobChannel.stopLocked
  dsimp only
  rw [← List.append_assoc]
  refine K.stopped hI' (by rw [hu'', hu', hu]) (by rw [hpr'', hpr', hpr]) (fun k => ?_) fun k => ?_
  · rw [hjobs', hnone]
  · rw [hrel]
    cases hk : (c.releaseJobs c.jobs.toList).1.releasing[k]? with
    | none => split_ifs <;> rfl
    | some p => rw [if_pos (Table.mem_map_toList.2 ⟨p, hk⟩)]

end Channel

end Tensorplate
