import Tensorplate.Channel.Outbox
import Tensorplate.Lib.History

/-!
# What the sink is told

The calls decided so far, in their order, against what happened: each event
belongs to a submission and follows that submission's earlier events in the
order of a job, a session is told released once, behind the `released` of
its last job. What the channel still has to tell is what is in its tables.
-/

namespace Tensorplate

namespace Channel

open Lib

/-- The events one submission was told. -/
def eventsOf (D : List Delivery) (n : ℕ) : List JobEvent :=
  D.filterMap fun
    | .event m e => if m = n then some e else none
    | .sessionReleased .. => none

/-- A cancel of the submission, or a release of its session, was accepted. -/
def CancelledBy (H : List Happening) (n key : ℕ) : Prop :=
  .cancelled n ∈ H ∨ ∃ g new, .releaseAccepted key g new ∈ H

/-- **What may be told** behind the calls `past`, after `H` happened. -/
def MayTell (H : List Happening) (past : List Delivery) : Delivery → Prop
  | .event n e => ∃ s, .submitted n s ∈ H ∧ e.identity = s.identity ∧
      JobEvent.MayFollow s.progressLimit (eventsOf past n) e ∧
      (e.body = .cancelAcknowledged → CancelledBy H n s.identity.sessionKey) ∧
      ∀ g, .sessionReleased s.identity.sessionKey g ∉ past
  | .sessionReleased key g => .releaseAccepted key g true ∈ H ∧
      (∀ g', .sessionReleased key g' ∉ past) ∧
      ∀ n s, .submitted n s ∈ H → s.identity.sessionKey = key →
        ∃ e ∈ eventsOf past n, e.body = .released

/-- A submission has one number. -/
def Unique (H : List Happening) : Prop :=
  ∀ {n : ℕ} {s s' : SubmittedJob}, .submitted n s ∈ H → .submitted n s' ∈ H → s = s'

/-- What a job in the table was told, as the submission `s`. -/
structure JobTold (H : List Happening) (D : List Delivery) (job : Job) (s : SubmittedJob) : Prop where
  submitted : .submitted job.serial s ∈ H
  identity : job.identity = s.identity
  limit : job.sequence.progressLimit = s.progressLimit
  replays : job.sequence.Replays (eventsOf D job.serial)
  cancelled : job.sequence.cancelRequested = true →
    CancelledBy H job.serial s.identity.sessionKey
  unreleased : ∀ g, .sessionReleased s.identity.sessionKey g ∉ D

/-- **The invariant of what is told**, while the sink is attached. -/
structure Told (H : List Happening) (c : JobChannel) (D : List Delivery) : Prop extends Exact c where
  attached : c.sinkDetached = false
  lawful : Lawful (MayTell H) D
  open' : ∀ {k : ℕ} {job : Job}, c.jobs[k]? = some job → ∃ s, JobTold H D job s
  closed : ∀ {n : ℕ} {s : SubmittedJob}, .submitted n s ∈ H →
    (∃ (k : ℕ) (job : Job), c.jobs[k]? = some job ∧ job.serial = n) ∨
      ∃ e ∈ eventsOf D n, e.body = .released
  pending : ∀ {key : ℕ} {p : PendingRelease}, c.releasing[key]? = some p →
    .releaseAccepted key p.generation true ∈ H ∧ ∀ g, .sessionReleased key g ∉ D
  recorded : ∀ {key g : ℕ}, .sessionReleased key g ∈ D →
    c.releasedSessions.contains key = true
  accepted : ∀ {key g : ℕ}, .releaseAccepted key g true ∈ H →
    (∃ p : PendingRelease, c.releasing[key]? = some p ∧ p.generation = g) ∨
      .sessionReleased key g ∈ D

/-! ## Events of a submission -/

section

variable {D : List Delivery} {n m : ℕ} {e : JobEvent}

theorem mem_eventsOf : e ∈ eventsOf D n ↔ .event n e ∈ D := by
  unfold eventsOf
  rw [List.mem_filterMap]
  constructor
  · rintro ⟨d, hd, heq⟩
    split at heq
    · split_ifs at heq with hm
      cases heq
      rw [← hm]
      exact hd
    · cases heq
  · intro hd
    exact ⟨_, hd, if_pos rfl⟩

theorem eventsOf_append_event :
    eventsOf (D ++ [.event m e]) n = eventsOf D n ++ if m = n then [e] else [] := by
  unfold eventsOf
  rw [List.filterMap_append]
  split_ifs with h <;> simp [h]

theorem eventsOf_append_session (key g : ℕ) :
    eventsOf (D ++ [.sessionReleased key g]) n = eventsOf D n := by
  unfold eventsOf
  rw [List.filterMap_append]
  simp

theorem session_mem_append_event {key g : ℕ} :
    .sessionReleased key g ∈ D ++ [.event m e] ↔ .sessionReleased key g ∈ D := by
  simp

theorem session_mem_append_session {key g key' g' : ℕ} :
    .sessionReleased key g ∈ D ++ [.sessionReleased key' g'] ↔
      .sessionReleased key g ∈ D ∨ (key = key' ∧ g = g') := by
  simp

end

section

variable {H : List Happening} {c c' : JobChannel} {D : List Delivery} {k : ℕ} {job : Job}
variable {e : JobEvent} {q : JobEventSequence} {s : SubmittedJob}

/-- What a job accepts may be told. -/
theorem JobTold.mayTell (h : JobTold H D job s) (hs : JobSound c k job)
    (ho : job.sequence.observe e = .ok q) : MayTell H D (.event job.serial e) := by
  obtain ⟨totals, hc, -⟩ := JobEventSequence.observe_eq_ok.1 ho
  obtain ⟨hid, -, -, hbody⟩ := JobEventSequence.check_eq_ok hc
  refine ⟨s, h.submitted, ?_, ?_, fun he => ?_, h.unreleased⟩
  · rw [hid, hs.judged, h.identity]
  · rw [← h.limit]
    exact h.replays.mayFollow hc
  · rw [he] at hbody
    exact h.cancelled hbody.1

/-- A job behind an event it accepted. -/
theorem JobTold.observed (h : JobTold H D job s) (ho : job.sequence.observe e = .ok q) :
    JobTold H (D ++ [.event job.serial e]) { job with sequence := q } s := by
  obtain ⟨totals, -, hq⟩ := JobEventSequence.observe_eq_ok.1 ho
  subst hq
  refine ⟨h.submitted, h.identity, ?_, ?_, fun hr => ?_, fun g => ?_⟩
  · rw [← h.limit]
    exact JobEventSequence.advance_progressLimit _
  · show JobEventSequence.Replays _ (eventsOf (D ++ [.event job.serial e]) job.serial)
    rw [eventsOf_append_event, if_pos rfl]
    exact h.replays.advance totals
  · rw [JobEventSequence.advance_cancelRequested] at hr
    exact h.cancelled hr
  · rw [session_mem_append_event]
    exact h.unreleased g

/-- A job is not told what another is. -/
theorem JobTold.other {n : ℕ} (h : JobTold H D job s) (hne : n ≠ job.serial) :
    JobTold H (D ++ [.event n e]) job s := by
  refine ⟨h.submitted, h.identity, h.limit, ?_, h.cancelled, fun g => ?_⟩
  · rw [eventsOf_append_event, if_neg hne, List.append_nil]
    exact h.replays
  · rw [session_mem_append_event]
    exact h.unreleased g

theorem Told.same (h : Told H c D) (hx : Exact c') (hjobs : c'.jobs = c.jobs)
    (hrel : c'.releasing = c.releasing) (hkeys : c'.releasedSessions = c.releasedSessions)
    (hatt : c'.sinkDetached = c.sinkDetached) : Told H c' D where
  toExact := hx
  attached := hatt.trans h.attached
  lawful := h.lawful
  open' := by
    rw [hjobs]
    exact h.open'
  closed := by
    rw [hjobs]
    exact h.closed
  pending := by
    rw [hrel]
    exact h.pending
  recorded := by
    rw [hkeys]
    exact h.recorded
  accepted := by
    rw [hrel]
    exact h.accepted

/-- A job is told an event that is not its release. -/
theorem Told.told (h : Told H c D) (hj : c.jobs[k]? = some job)
    (ho : job.sequence.observe e = .ok q) (he : e.body ≠ .released) :
    Told H (c.setSequence k job q) (D ++ [.event job.serial e]) where
  toExact := kept_exact.told (D := []) h.toExact hj ho he
  attached := h.attached
  lawful := by
    obtain ⟨s, hs⟩ := h.open' hj
    exact lawful_append_singleton.2 ⟨h.lawful, hs.mayTell (h.job hj) ho⟩
  open' := fun {a job'} ha => by
    rw [jobs_setSequence] at ha
    split_ifs at ha with hk
    · cases ha
      obtain ⟨s, hs⟩ := h.open' hj
      exact ⟨s, hs.observed ho⟩
    · obtain ⟨s, hs⟩ := h.open' ha
      exact ⟨s, hs.other fun heq => hk (h.serials hj ha heq)⟩
  closed := fun {n s} hsub => by
    rcases h.closed hsub with ⟨a, job', ha, hn⟩ | ⟨e', he', hb⟩
    · by_cases hk : k = a
      · subst hk
        rw [hj] at ha
        cases ha
        exact .inl ⟨k, { job with sequence := q }, by rw [jobs_setSequence, if_pos rfl], hn⟩
      · exact .inl ⟨a, job', by rw [jobs_setSequence, if_neg hk]; exact ha, hn⟩
    · refine .inr ⟨e', ?_, hb⟩
      rw [eventsOf_append_event]
      exact List.mem_append_left _ he'
  pending := fun {key p} hp => by
    obtain ⟨hacc, hno⟩ := h.pending hp
    exact ⟨hacc, fun g => by rw [session_mem_append_event]; exact hno g⟩
  recorded := fun hmem => h.recorded (session_mem_append_event.1 hmem)
  accepted := fun hacc => (h.accepted hacc).imp_right session_mem_append_event.2

/-- A job is told its release and leaves. -/
theorem Told.gone (h : Told H c D) (hj : c.jobs[k]? = some job)
    (ho : job.sequence.observe e = .ok q) (he : e.body = .released) :
    Told H (c.without k job q) (D ++ [.event job.serial e]) where
  toExact := h.toExact.gone hj
  attached := h.attached
  lawful := by
    obtain ⟨s, hs⟩ := h.open' hj
    exact lawful_append_singleton.2 ⟨h.lawful, hs.mayTell (h.job hj) ho⟩
  open' := fun {a job'} ha => by
    rw [jobs_without] at ha
    split_ifs at ha with hk
    obtain ⟨s, hs⟩ := h.open' ha
    exact ⟨s, hs.other fun heq => hk (h.serials hj ha heq)⟩
  closed := fun {n s} hsub => by
    rw [eventsOf_append_event]
    rcases h.closed hsub with ⟨a, job', ha, hn⟩ | ⟨e', he', hb⟩
    · by_cases hk : k = a
      · subst hk
        rw [hj] at ha
        cases ha
        refine .inr ⟨e, ?_, he⟩
        rw [if_pos hn]
        simp
      · exact .inl ⟨a, job', by rw [jobs_without, if_neg hk]; exact ha, hn⟩
    · exact .inr ⟨e', List.mem_append_left _ he', hb⟩
  pending := fun {key p} hp => by
    obtain ⟨hacc, hno⟩ := h.pending hp
    exact ⟨hacc, fun g => by rw [session_mem_append_event]; exact hno g⟩
  recorded := fun hmem => h.recorded (session_mem_append_event.1 hmem)
  accepted := fun hacc => (h.accepted hacc).imp_right session_mem_append_event.2

/-- A session without jobs is told released. -/
theorem Told.acknowledged {key : ℕ} {p : PendingRelease} (hu : Unique H) (h : Told H c D)
    (hp : c.releasing[key]? = some p)
    (hnone : ∀ {k : ℕ} {job : Job}, c.jobs[k]? = some job → job.identity.sessionKey ≠ key) :
    Told H (c.acknowledgeLocked key p).1 (D ++ [.sessionReleased key p.generation]) where
  toExact := h.toExact.acknowledged key p
  attached := h.attached
  lawful := by
    obtain ⟨hacc, hno⟩ := h.pending hp
    refine lawful_append_singleton.2 ⟨h.lawful, hacc, hno, fun n s hsub hkey => ?_⟩
    rcases h.closed hsub with ⟨k, job, hj, rfl⟩ | hover
    · -- the job of that submission would be one of the session
      obtain ⟨s', hs'⟩ := h.open' hj
      rw [hu hsub hs'.submitted, ← hs'.identity] at hkey
      exact absurd hkey (hnone hj)
    · exact hover
  open' := fun {a job'} ha => by
    obtain ⟨s, hs⟩ := h.open' (show c.jobs[a]? = some job' from ha)
    refine ⟨s, hs.submitted, hs.identity, hs.limit, ?_, hs.cancelled, fun g hmem => ?_⟩
    · rw [eventsOf_append_session]
      exact hs.replays
    · rcases session_mem_append_session.1 hmem with hmem | ⟨hkey, -⟩
      · exact hs.unreleased g hmem
      · rw [← hs.identity] at hkey
        exact hnone ha hkey
  closed := fun hsub => by
    rw [eventsOf_append_session]
    exact h.closed hsub
  pending := fun {key' p'} hp' => by
    rw [releasing_acknowledgeLocked] at hp'
    split_ifs at hp' with hk
    obtain ⟨hacc, hno⟩ := h.pending hp'
    refine ⟨hacc, fun g hmem => ?_⟩
    rcases session_mem_append_session.1 hmem with hmem | ⟨hkey, -⟩
    · exact hno g hmem
    · exact hk hkey.symm
  recorded := fun {key' g} hmem => by
    refine (ReleasedSessionKeys.contains_insert _ _ _).2 ?_
    rcases session_mem_append_session.1 hmem with hmem | ⟨hkey, -⟩
    · exact .inr (h.recorded hmem)
    · exact .inl hkey
  accepted := fun {key' g} hacc => by
    rcases h.accepted hacc with ⟨p', hp', hg⟩ | hmem
    · by_cases hk : key = key'
      · subst hk
        rw [hp] at hp'
        cases hp'
        exact .inr (session_mem_append_session.2 (.inr ⟨rfl, hg.symm⟩))
      · exact .inl ⟨p', by rw [releasing_acknowledgeLocked, if_neg hk]; exact hp', hg⟩
    · exact .inr (session_mem_append_session.2 (.inl hmem))

theorem Told.marked {key : ℕ} {p : PendingRelease} (h : Told H c D)
    (hp : c.releasing[key]? = some p) :
    Told H { c with releasing := c.releasing.insert key { p with acknowledged := true } } D :=
  { h with
    toExact := h.toExact.marked hp _
    pending := fun {key' p'} hp' => by
      change (c.releasing.insert key _)[key']? = some p' at hp'
      rw [Table.getElem?_insert] at hp'
      split_ifs at hp' with hk
      · cases hp'
        subst hk
        obtain ⟨hacc, hno⟩ := h.pending hp
        exact ⟨hacc, hno⟩
      · exact h.pending hp'
    accepted := fun {key' g} hacc => by
      rcases h.accepted hacc with ⟨p', hp', hg⟩ | hmem
      · by_cases hk : key = key'
        · subst hk
          rw [hp] at hp'
          cases hp'
          exact .inl ⟨_, Table.getElem?_insert_self, hg⟩
        · refine .inl ⟨p', ?_, hg⟩
          show (c.releasing.insert key _)[key']? = some p'
          rw [Table.getElem?_insert_of_ne hk]
          exact hp'
      · exact .inr hmem }

end

/-- **What is told stays in order** under everything a locked function does. -/
theorem kept_told {H : List Happening} (hu : Unique H) : Kept (Told H) where
  sound := fun h => h.toSound
  named := fun h => kept_exact.named (D := []) h.toExact
  told := fun h hj ho he => h.told hj ho he
  gone := fun h hj ho he => h.gone hj ho he
  acknowledged := fun h hp hnone => h.acknowledged hu hp hnone
  marked := fun h hp => h.marked hp
  jobDropped := fun h => h.same (kept_exact.jobDropped (D := []) h.toExact) rfl rfl rfl rfl
  otherDropped := fun h => h.same (kept_exact.otherDropped (D := []) h.toExact) rfl rfl rfl rfl
  unaryAnswered := fun {c _} outcome h => by
    have hx := kept_exact.unaryAnswered (D := []) outcome h.toExact
    unfold JobChannel.answerUnary at hx ⊢
    split
    · exact h
    · next hw =>
      rw [hw] at hx
      exact h.same hx rfl rfl rfl rfl
  probeEnded := fun {c _} outcome h => by
    have hx := kept_exact.probeEnded (D := []) outcome h.toExact
    unfold JobChannel.endProbeLocked at hx ⊢
    split
    · exact h
    · next hw =>
      rw [hw] at hx
      exact h.same hx rfl rfl rfl rfl
  ended := fun failure h hi hs hu hp ht =>
    h.same (kept_exact.ended (D := []) failure h.toExact hi hs hu hp ht) rfl rfl rfl rfl
  stopped := fun h hu hp hj hr =>
    h.same (kept_exact.stopped (D := []) h.toExact hu hp hj hr) rfl rfl rfl rfl

end Channel

end Tensorplate
