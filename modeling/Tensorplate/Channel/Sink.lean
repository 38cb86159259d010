import Tensorplate.Channel.OutboxRun
import Tensorplate.Channel.Told

/-!
# The calls of a sink, over every run

The calls the sink was given and those of the batch in flight are the calls
the channel decided, in their order. Callers, the reader, stops and starts
interleave freely; while the sink stays attached, what is decided follows
what happened, so that each call is one that may be made when it is made.
-/

namespace Tensorplate

namespace Channel

open Lib

/-- The calls the sink was given. -/
def given (H : List Happening) : List Delivery :=
  H.filterMap fun
    | .called d => some d
    | _ => none

/-- The calls of the batch in flight that are still to be made. -/
def World.due (w : World) : List Delivery :=
  match w.batch with
  | none => []
  | some (out, _) => out

/-- **What may happen behind `past`**: a sink call is one that may be made
after the calls before it, by what happened before it. -/
def MayHappen (past : List Happening) : Happening → Prop
  | .called d => MayTell past (given past) d
  | _ => True

/-- The sink is not detached. -/
def Attached (_ : World) (a : Action) : Prop := a ≠ .detachBegin

section

variable {H H' : List Happening} {c c' : JobChannel} {D : List Delivery} {d : Delivery}
variable {job : Job} {s : SubmittedJob}

theorem given_append (H l : List Happening) : given (H ++ l) = given H ++ given l :=
  List.filterMap_append

theorem mem_given : d ∈ given H ↔ .called d ∈ H := by
  unfold given
  rw [List.mem_filterMap]
  constructor
  · rintro ⟨x, hx, heq⟩
    cases x <;> first | exact Option.some.inj heq ▸ hx | exact absurd heq (by simp)
  · exact fun hx => ⟨_, hx, rfl⟩

/-- What happened before the last. -/
theorem mem_of_ne_last {x y : Happening} (h : y ∈ H ++ [x]) (hne : y ≠ x) : y ∈ H := by
  rcases List.mem_append.1 h with h | h
  · exact h
  · exact absurd (List.mem_singleton.1 h) hne

/-! ## What more happenings leave -/

theorem CancelledBy.grown {n key : ℕ} (h : CancelledBy H n key) (hsub : ∀ x ∈ H, x ∈ H') :
    CancelledBy H' n key := by
  rcases h with h | ⟨g, new, h⟩
  · exact .inl (hsub _ h)
  · exact .inr ⟨g, new, hsub _ h⟩

/-- A call stays one that may be made, if no job of a session is submitted
behind its release. -/
theorem MayTell.grown {past : List Delivery} (h : MayTell H past d) (hsub : ∀ x ∈ H, x ∈ H')
    (hnew : ∀ key g, d = .sessionReleased key g → ∀ n s, .submitted n s ∈ H' →
      s.identity.sessionKey = key → .submitted n s ∈ H) : MayTell H' past d := by
  cases d with
  | event n e =>
    obtain ⟨s, hs, hid, hfollow, hcancel, hno⟩ := h
    exact ⟨s, hsub _ hs, hid, hfollow, fun he => (hcancel he).grown hsub, hno⟩
  | sessionReleased key g =>
    obtain ⟨hacc, hno, hall⟩ := h
    exact ⟨hsub _ hacc, hno, fun n s hs hkey => hall n s (hnew key g rfl n s hs hkey) hkey⟩

theorem JobTold.grown (h : JobTold H D job s) (hsub : ∀ x ∈ H, x ∈ H') : JobTold H' D job s where
  submitted := hsub _ h.submitted
  identity := h.identity
  limit := h.limit
  replays := h.replays
  cancelled := fun hc => (h.cancelled hc).grown hsub
  unreleased := h.unreleased

/-- Happenings that are no submission and no new release change nothing. -/
theorem Told.grown (h : Told H c D) (hsub : ∀ x ∈ H, x ∈ H')
    (hs : ∀ n s, .submitted n s ∈ H' → .submitted n s ∈ H)
    (hr : ∀ key g, .releaseAccepted key g true ∈ H' → .releaseAccepted key g true ∈ H) :
    Told H' c D where
  toExact := h.toExact
  attached := h.attached
  lawful := h.lawful.mono fun past d hd => hd.grown hsub fun _ _ _ n s hn _ => hs n s hn
  open' := fun hj => by
    obtain ⟨s, ht⟩ := h.open' hj
    exact ⟨s, ht.grown hsub⟩
  closed := fun hn => h.closed (hs _ _ hn)
  pending := fun hp => by
    obtain ⟨hacc, hno⟩ := h.pending hp
    exact ⟨hsub _ hacc, hno⟩
  recorded := h.recorded
  accepted := fun hacc => h.accepted (hr _ _ hacc)

/-- An event is told of a submission. -/
theorem Told.submitted_of_event {n : ℕ} {e : JobEvent} (h : Told H c D) (he : .event n e ∈ D) :
    ∃ s, .submitted n s ∈ H := by
  obtain ⟨past, future, heq⟩ := List.append_of_mem he
  obtain ⟨s, hs, -⟩ := h.lawful past _ future heq
  exact ⟨s, hs⟩

/-- A submission nobody made was told nothing. -/
theorem Told.eventsOf_eq_nil {n : ℕ} (h : Told H c D) (hn : ∀ s, .submitted n s ∉ H) :
    eventsOf D n = [] := by
  rw [List.eq_nil_iff_forall_not_mem]
  intro e he
  obtain ⟨s, hs⟩ := h.submitted_of_event (mem_eventsOf.1 he)
  exact hn s hs

end

/-! ## Calls that are accepted -/

section

variable {H : List Happening} {c c' : JobChannel} {D : List Delivery} {s : SubmittedJob}

/-- **A job is submitted**: it has a number nobody had, and no release of its
session was told. -/
theorem Told.submits (h : Told H c D) (hx : Exact c')
    (hjobs : ∀ a : ℕ, c'.jobs[a]? =
      if s.identity.jobId = a then some (c.newJob s) else c.jobs[a]?)
    (hrel : c'.releasing = c.releasing) (hkeys : c'.releasedSessions = c.releasedSessions)
    (hatt : c'.sinkDetached = c.sinkDetached) (hnone : c.jobs[s.identity.jobId]? = none)
    (hkey : c.releasedSessions.contains s.identity.sessionKey = false)
    (hnew : ∀ s', .submitted c.serials s' ∉ H) :
    Told (H ++ [.submitted c.serials s]) c' D := by
  have hsub : ∀ x ∈ H, x ∈ H ++ [.submitted c.serials s] := fun x hx => List.mem_append_left _ hx
  have hcases : ∀ {n s'}, .submitted n s' ∈ H ++ [Happening.submitted c.serials s] →
      .submitted n s' ∈ H ∨ (n = c.serials ∧ s' = s) := by
    intro n s' hmem
    rcases List.mem_append.1 hmem with hmem | hmem
    · exact .inl hmem
    · rw [List.mem_singleton, Happening.submitted.injEq] at hmem
      exact .inr hmem
  -- A key whose release was told is recorded, and such a key submits nothing.
  have hfree : ∀ g, .sessionReleased s.identity.sessionKey g ∉ D := by
    intro g hmem
    have hrec := h.recorded hmem
    rw [hkey] at hrec
    exact absurd hrec (by simp)
  refine
    { toExact := hx
      attached := hatt.trans h.attached
      lawful := fun past d future heq => ?_
      open' := fun {a job} ha => ?_
      closed := fun {n s'} hn => ?_
      pending := fun {key p} hp => ?_
      recorded := fun hmem => by rw [hkeys]; exact h.recorded hmem
      accepted := fun {key g} hacc => ?_ }
  · refine (h.lawful past d future heq).grown hsub fun key g hd n s' hn hk => ?_
    rcases hcases hn with hn | ⟨-, rfl⟩
    · exact hn
    · rw [hd] at heq
      refine absurd ?_ (hfree g)
      rw [heq, hk]
      exact List.mem_append_right _ List.mem_cons_self
  · rw [hjobs] at ha
    split_ifs at ha with hk
    · obtain rfl := Option.some.inj ha
      refine ⟨s, ?_, rfl, rfl, ?_, fun hc => absurd hc (by simp [JobChannel.newJob,
        JobEventSequence.ofRequest]), hfree⟩
      · exact List.mem_append_right _ (List.mem_singleton.2 rfl)
      · show JobEventSequence.Replays _ (eventsOf D c.serials)
        rw [h.eventsOf_eq_nil hnew]
        exact JobEventSequence.replays_ofRequest s
    · obtain ⟨s', hs'⟩ := h.open' ha
      exact ⟨s', hs'.grown hsub⟩
  · rcases hcases hn with hn | ⟨rfl, rfl⟩
    · refine (h.closed hn).imp_left fun ⟨k, job, hj, hserial⟩ => ⟨k, job, ?_, hserial⟩
      have hk : s.identity.jobId ≠ k := by
        rintro rfl
        rw [hnone] at hj
        exact absurd hj (by simp)
      rw [hjobs, if_neg hk]
      exact hj
    · exact .inl ⟨_, c.newJob s', by rw [hjobs, if_pos rfl], rfl⟩
  · rw [hrel] at hp
    obtain ⟨hacc, hno⟩ := h.pending hp
    exact ⟨hsub _ hacc, hno⟩
  · rw [hrel]
    exact h.accepted (mem_of_ne_last hacc (by simp))

/-- Jobs renewed in their place: what they were told stays, and a cancel they
ask for now was accepted. -/
theorem Told.renews (h : Told H c D) (hx : Exact c') (renew : ℕ → Job → Job)
    (hjobs : ∀ a : ℕ, c'.jobs[a]? = (c.jobs[a]?).map (renew a))
    (hrel : c'.releasing = c.releasing) (hkeys : c'.releasedSessions = c.releasedSessions)
    (hatt : c'.sinkDetached = c.sinkDetached)
    (hsame : ∀ {a : ℕ} {job : Job} {s}, c.jobs[a]? = some job → JobTold H D job s →
      (renew a job).serial = job.serial ∧ JobTold H D (renew a job) s) : Told H c' D where
  toExact := hx
  attached := hatt.trans h.attached
  lawful := h.lawful
  open' := fun {a job'} ha => by
    rw [hjobs] at ha
    obtain ⟨job, hj, rfl⟩ := Option.map_eq_some_iff.1 ha
    obtain ⟨s, hs⟩ := h.open' hj
    exact ⟨s, (hsame hj hs).2⟩
  closed := fun {n s} hn => by
    refine (h.closed hn).imp_left fun ⟨k, job, hj, hserial⟩ => ⟨k, renew k job, ?_, ?_⟩
    · rw [hjobs, hj]
      rfl
    · obtain ⟨s', hs'⟩ := h.open' hj
      rw [(hsame hj hs').1]
      exact hserial
  pending := by
    rw [hrel]
    exact h.pending
  recorded := by
    rw [hkeys]
    exact h.recorded
  accepted := by
    rw [hrel]
    exact h.accepted

/-- A job that asks for a cancel that was accepted. -/
theorem JobTold.noted {job job' : Job} (h : JobTold H D job s) (hid : job'.identity = job.identity)
    (hserial : job'.serial = job.serial)
    (hseq : job'.sequence = job.sequence.noteCancelRequested)
    (hc : CancelledBy H job.serial s.identity.sessionKey) : JobTold H D job' s where
  submitted := by
    rw [hserial]
    exact h.submitted
  identity := hid.trans h.identity
  limit := by
    rw [hseq]
    exact h.limit
  replays := by
    rw [hseq, hserial]
    exact h.replays.noted
  cancelled := fun _ => by
    rw [hserial]
    exact hc
  unreleased := h.unreleased

/-- **A cancel is accepted.** -/
theorem Told.cancels {k : ℕ} {job : Job} (h : Told (H ++ [.cancelled job.serial]) c D)
    (hj : c.jobs[k]? = some job) (hx : Exact ((c.withCancel k job).queueLocked .cancel k)) :
    Told (H ++ [.cancelled job.serial]) ((c.withCancel k job).queueLocked .cancel k) D := by
  refine h.renews hx (fun a job' => if k = a then c.cancelledJob job else job') (fun a => ?_)
    rfl rfl rfl fun {a job' s} ha hs => ?_
  · show (c.withCancel k job).jobs[a]? = _
    rw [jobs_withCancel]
    by_cases hk : k = a
    · subst hk
      rw [if_pos rfl, hj, Option.map_some, if_pos rfl]
    · rw [if_neg hk]
      simp [hk]
  · by_cases hk : k = a
    · subst hk
      rw [hj] at ha
      obtain rfl := Option.some.inj ha
      rw [if_pos rfl]
      exact ⟨rfl, hs.noted rfl rfl rfl (.inl (List.mem_append_right _ (List.mem_singleton.2 rfl)))⟩
    · rw [if_neg hk]
      exact ⟨rfl, hs⟩

/-- **The release of a session is accepted.** -/
theorem Told.releases {key generation : ℕ} (h : Told H c D) (hx : Exact c')
    (hc' : c' = (c.withRelease key generation).queueLocked .release key)
    (hnone : c.releasing[key]? = none) (hkey : c.releasedSessions.contains key = false) :
    Told (H ++ [.releaseAccepted key generation true]) c' D := by
  have hsub : ∀ x ∈ H, x ∈ H ++ [Happening.releaseAccepted key generation true] :=
    fun x hx => List.mem_append_left _ hx
  have hacc : Happening.releaseAccepted key generation true ∈
      H ++ [Happening.releaseAccepted key generation true] :=
    List.mem_append_right _ (List.mem_singleton.2 rfl)
  have hs : ∀ n s, .submitted n s ∈ H ++ [Happening.releaseAccepted key generation true] →
      .submitted n s ∈ H := fun n s hmem => mem_of_ne_last hmem (by simp)
  have hjobs : ∀ a : ℕ, c'.jobs[a]? = (c.jobs[a]?).map (JobChannel.noteSession key) := by
    intro a
    rw [hc']
    exact jobs_withRelease key generation a
  have hreleasing : ∀ a : ℕ, c'.releasing[a]? =
      if key = a then some ⟨generation, false⟩ else c.releasing[a]? := by
    intro a
    rw [hc']
    exact releasing_withRelease key generation a
  have hnoted : ∀ {job : Job} {s}, JobTold H D job s →
      (JobChannel.noteSession key job).serial = job.serial ∧
        JobTold (H ++ [.releaseAccepted key generation true]) D
          (JobChannel.noteSession key job) s := by
    intro job s ht
    unfold JobChannel.noteSession
    split_ifs with hk
    · refine ⟨rfl, (ht.grown hsub).noted rfl rfl rfl (.inr ⟨generation, true, ?_⟩)⟩
      rw [← ht.identity, hk]
      exact hacc
    · exact ⟨rfl, ht.grown hsub⟩
  refine
    { toExact := hx
      attached := by rw [hc']; exact h.attached
      lawful := h.lawful.mono fun past d hd => hd.grown hsub fun _ _ _ n s hn _ => hs n s hn
      open' := fun {a job'} ha => ?_
      closed := fun {n s} hn => ?_
      pending := fun {key' p} hp => ?_
      recorded := fun hmem => by rw [hc']; exact h.recorded hmem
      accepted := fun {key' g} hmem => ?_ }
  · rw [hjobs] at ha
    obtain ⟨job, hj, rfl⟩ := Option.map_eq_some_iff.1 ha
    obtain ⟨s, ht⟩ := h.open' hj
    exact ⟨s, (hnoted ht).2⟩
  · refine (h.closed (hs _ _ hn)).imp_left fun ⟨k, job, hj, hserial⟩ =>
      ⟨k, JobChannel.noteSession key job, ?_, ?_⟩
    · rw [hjobs, hj]
      rfl
    · obtain ⟨s', ht⟩ := h.open' hj
      rw [(hnoted ht).1]
      exact hserial
  · rw [hreleasing] at hp
    split_ifs at hp with hk
    · obtain rfl := Option.some.inj hp
      subst hk
      refine ⟨hacc, fun g hmem => ?_⟩
      have hrec := h.recorded hmem
      rw [hkey] at hrec
      exact absurd hrec (by simp)
    · obtain ⟨hacc', hno⟩ := h.pending hp
      exact ⟨hsub _ hacc', hno⟩
  · rw [hreleasing]
    rcases List.mem_append.1 hmem with hmem | hmem
    · refine (h.accepted hmem).imp_left fun ⟨p, hp, hg⟩ => ⟨p, ?_, hg⟩
      have hk : key ≠ key' := by
        rintro rfl
        rw [hnone] at hp
        exact absurd hp (by simp)
      rw [if_neg hk]
      exact hp
    · rw [List.mem_singleton, Happening.releaseAccepted.injEq] at hmem
      obtain ⟨rfl, rfl, -⟩ := hmem
      exact .inl ⟨⟨g, false⟩, if_pos rfl, rfl⟩

end

/-! ## Calls that leave jobs and sessions alone -/

/-- The jobs, the sessions, the sink and the numbers are as they were. -/
structure Still (c c' : JobChannel) : Prop where
  jobs : c'.jobs = c.jobs
  releasing : c'.releasing = c.releasing
  releasedSessions : c'.releasedSessions = c.releasedSessions
  sinkDetached : c'.sinkDetached = c.sinkDetached
  serials : c'.serials = c.serials

section

variable {c c' : JobChannel}

theorem Still.refl (c : JobChannel) : Still c c := ⟨rfl, rfl, rfl, rfl, rfl⟩

theorem still_untouched (h : c.Untouched c') : Still c c' := by
  rcases h with rfl | rfl
  · exact .refl _
  · exact ⟨rfl, rfl, rfl, rfl, rfl⟩

theorem still_start (isOpen : Bool) (jobClasses : List JobClass) (threads : Bool) :
    Still c (c.start isOpen jobClasses threads).1 := by
  rcases JobChannel.start_cases (c := c) isOpen jobClasses threads with ⟨error, heq⟩ | ⟨-, heq⟩
  · rw [heq]
    exact .refl _
  · rw [heq]
    exact ⟨rfl, rfl, rfl, rfl, rfl⟩

theorem still_setEventSink (isNull : Bool) : Still c (c.setEventSink isNull).1 := by
  unfold JobChannel.setEventSink
  split_ifs
  · exact .refl _
  · exact .refl _
  · exact ⟨rfl, rfl, rfl, rfl, rfl⟩

theorem still_exchange (messageId : String) (encoded : Option Error) :
    Still c (c.exchange messageId encoded).1 := by
  rcases JobChannel.exchange_cases (c := c) messageId encoded with
    ⟨error, heq⟩ | ⟨-, -, -, -, heq⟩
  · rw [heq]
    exact .refl _
  · rw [heq]
    exact ⟨rfl, rfl, rfl, rfl, rfl⟩

theorem still_exchangeWake (ticket : ℕ) : Still c (c.exchangeWake ticket).1 := by
  unfold JobChannel.exchangeWake
  split
  · exact ⟨rfl, rfl, rfl, rfl, rfl⟩
  · exact ⟨rfl, rfl, rfl, rfl, rfl⟩

theorem still_probeHealth (encoded : Option Error) : Still c (c.probeHealth encoded).1 := by
  rcases JobChannel.probeHealth_cases (c := c) encoded with
    ⟨c', error, hu, heq⟩ | ⟨i, heq⟩ | ⟨-, -, -, heq⟩
  · rw [heq]
    exact still_untouched hu
  · rw [heq]
    dsimp only [JobChannel.awaited]
    exact ⟨rfl, rfl, rfl, rfl, rfl⟩
  · rw [heq]
    dsimp only [JobChannel.awaited, JobChannel.queueLocked, JobChannel.withProbe, JobChannel.drawn]
    exact ⟨rfl, rfl, rfl, rfl, rfl⟩

theorem still_probeWake (i : ℕ) : Still c (c.probeWake i).1 := by
  unfold JobChannel.probeWake
  dsimp only
  split
  · exact ⟨rfl, rfl, rfl, rfl, rfl⟩
  · exact ⟨rfl, rfl, rfl, rfl, rfl⟩

theorem still_admitJobs (c : JobChannel) : Still c c.admitJobs := by
  unfold JobChannel.admitJobs
  split_ifs
  · exact ⟨rfl, rfl, rfl, rfl, rfl⟩
  · exact .refl _

theorem still_closeAdmission (c : JobChannel) : Still c c.closeAdmission := by
  unfold JobChannel.closeAdmission
  split_ifs
  · exact ⟨rfl, rfl, rfl, rfl, rfl⟩
  · exact .refl _

theorem still_owe (out : List Delivery) : Still c (c.oweLocked out).1 := by
  unfold JobChannel.oweLocked
  split_ifs
  · exact .refl _
  · exact ⟨rfl, rfl, rfl, rfl, rfl⟩

end

/-! ## Every step -/

/-- **What no move looks at stays as it is.** -/
theorem Kept.framed {α : Type} {I : JobChannel → List Delivery → Prop} (K : Kept I)
    (f : JobChannel → α) (a : α)
    (hf : ∀ (c : JobChannel) phase ended stopping failure writeFailure jobs messageJobs releasing
      releasedSessions outbox unary outcomes probe probes counters,
      f { c with
        phase := phase, ended := ended, stopping := stopping, failure := failure,
        writeFailure := writeFailure, jobs := jobs, messageJobs := messageJobs,
        releasing := releasing, releasedSessions := releasedSessions, outbox := outbox,
        unary := unary, outcomes := outcomes, probe := probe, probes := probes,
        counters := counters } = f c) :
    Kept fun c D => I c D ∧ f c = a where
  sound := fun h => K.sound h.1
  named := fun h => K.named h.1
  told := fun h hj ho he => ⟨K.told h.1 hj ho he, (hf ..).trans h.2⟩
  gone := fun {c _ _ _ _ _} h hj ho he => ⟨K.gone h.1 hj ho he, (hf c ..).trans h.2⟩
  acknowledged := fun {c _ _ _} h hp hn => ⟨K.acknowledged h.1 hp hn, (hf c ..).trans h.2⟩
  marked := fun h hp => ⟨K.marked h.1 hp, (hf ..).trans h.2⟩
  jobDropped := fun h => ⟨K.jobDropped h.1, (hf ..).trans h.2⟩
  otherDropped := fun h => ⟨K.otherDropped h.1, (hf ..).trans h.2⟩
  unaryAnswered := fun {c _} outcome h => by
    refine ⟨K.unaryAnswered outcome h.1, ?_⟩
    unfold JobChannel.answerUnary
    split
    · exact h.2
    · exact (hf c ..).trans h.2
  probeEnded := fun {c _} outcome h => by
    refine ⟨K.probeEnded outcome h.1, ?_⟩
    unfold JobChannel.endProbeLocked
    split
    · exact h.2
    · exact (hf c ..).trans h.2
  ended := fun failure h hi hs hu hp ht => ⟨K.ended failure h.1 hi hs hu hp ht, (hf ..).trans h.2⟩
  stopped := fun h hu hp hj hr => ⟨K.stopped h.1 hu hp hj hr, (hf ..).trans h.2⟩

theorem kept_told_serials {H : List Happening} (hu : Unique H) (n : ℕ) :
    Kept fun c D => Told H c D ∧ c.serials = n :=
  (kept_told hu).framed JobChannel.serials n fun _ _ _ _ _ _ _ _ _ _ _ _ _ _ _ _ => rfl

/-- **The invariant of a run** with the sink attached. -/
structure Attends (w : World) : Prop where
  orderly : Orderly w
  told : Told w.history w.channel (given w.history ++ w.due)
  unique : Unique w.history
  numbered : ∀ {n s}, .submitted n s ∈ w.history → n < w.channel.serials
  refused : ∀ {n}, .refused n ∈ w.history → n < w.channel.serials ∧ ∀ s, .submitted n s ∉ w.history
  lawful : Lawful MayHappen w.history

/-- What happens and is none of the channel's calls that are counted. -/
def Quiet : Happening → Prop
  | .submitted .. => False
  | .refused _ => False
  | .releaseAccepted _ _ true => False
  | .called _ => False
  | _ => True

section

variable {w w' : World}

theorem given_quiet {l : List Happening} (hl : ∀ x ∈ l, Quiet x) : given l = [] := by
  unfold given
  rw [List.filterMap_eq_nil_iff]
  intro x hx
  have hq := hl x hx
  cases x <;> first | rfl | exact hq.elim

/-- A step that leaves jobs and sessions, with nothing of note. -/
theorem Attends.still (h : Attends w) (ho : Orderly w') (hc : Still w.channel w'.channel)
    (l : List Happening) (hl : ∀ x ∈ l, Quiet x) (hhist : w'.history = w.history ++ l)
    (hdue : w'.due = w.due) : Attends w' := by
  have hsub : ∀ x ∈ w.history, x ∈ w'.history := by
    intro x hx
    rw [hhist]
    exact List.mem_append_left _ hx
  have hold : ∀ x ∈ w'.history, ¬Quiet x → x ∈ w.history := by
    intro x hx hq
    rw [hhist] at hx
    rcases List.mem_append.1 hx with hx | hx
    · exact hx
    · exact absurd (hl x hx) hq
  have hs : ∀ n s, .submitted n s ∈ w'.history → .submitted n s ∈ w.history :=
    fun n s hx => hold _ hx id
  refine ⟨ho, ?_, fun h₁ h₂ => h.unique (hs _ _ h₁) (hs _ _ h₂), fun hn => ?_, fun hn => ?_, ?_⟩
  · rw [hdue, hhist, given_append, given_quiet hl, List.append_nil, ← hhist]
    have ht := h.told.grown hsub hs fun key g hx => hold _ hx id
    exact ht.same ho.exact hc.jobs hc.releasing hc.releasedSessions hc.sinkDetached
  · rw [hc.serials]
    exact h.numbered (hs _ _ hn)
  · obtain ⟨hlt, hno⟩ := h.refused (hold _ hn id)
    rw [hc.serials]
    exact ⟨hlt, fun s hx => hno s (hs _ _ hx)⟩
  · rw [hhist]
    refine h.lawful.append fun x hx past => ?_
    have hq := hl x hx
    cases x <;> trivial

/-- The calls decided are the batch, where none was in flight. -/
theorem due_decide (hbatch : w.batch = none) {c : JobChannel} (hatt : c.sinkDetached = false)
    (out : List Delivery) : (w.decide (c, out)).due = out := by
  have howed : (c.oweLocked out).2 = out := by
    unfold JobChannel.oweLocked
    rw [if_neg (by simp [hatt])]
  unfold World.decide World.deliver World.due
  dsimp only
  rw [howed]
  by_cases hempty : out.isEmpty
  · rw [if_pos hempty, hbatch, List.isEmpty_iff.1 hempty]
  · rw [if_neg hempty]

/-- **A step that decides calls**: the reader's, or a stop's. -/
theorem Attends.decides (h : Attends w) (hbatch : w.batch = none) {c : JobChannel}
    {out : List Delivery} (ht : Told w.history c (given w.history ++ out))
    (hserials : c.serials = w.channel.serials) (ho : Orderly w')
    (hchannel : w'.channel = (w.decide (c, out)).channel)
    (hhist : w'.history = w.history) (hdue : w'.due = (w.decide (c, out)).due) : Attends w' := by
  have hstill : Still c w'.channel := by
    rw [hchannel, decide_channel]
    exact still_owe out
  refine ⟨ho, ?_, ?_, ?_, ?_, ?_⟩
  · rw [hdue, due_decide hbatch ht.attached, hhist]
    exact ht.same ho.exact hstill.jobs hstill.releasing hstill.releasedSessions
      hstill.sinkDetached
  · rw [hhist]
    exact h.unique
  · rw [hhist, hstill.serials, hserials]
    exact h.numbered
  · rw [hhist, hstill.serials, hserials]
    exact h.refused
  · rw [hhist]
    exact h.lawful

theorem given_due (hbatch : w.batch = none) : given w.history ++ w.due = given w.history := by
  unfold World.due
  rw [hbatch, List.append_nil]

theorem Attends.endConnection (h : Attends w) (hr : w.reader = .reading) (hbatch : w.batch = none)
    (error : Error) : Attends (w.endConnection error) := by
  have ht := h.told
  rw [given_due hbatch] at ht
  obtain ⟨⟨hi, hst⟩, -⟩ := h.orderly.reading hr
  obtain ⟨ht', hn⟩ := (kept_told_serials h.unique w.channel.serials).endConnection ⟨ht, rfl⟩ hi hst
    error
  refine h.decides hbatch ht' hn (h.orderly.endConnection hr error) rfl ?_ rfl
  exact decide_history _ _

theorem Attends.route (h : Attends w) (hbatch : w.batch = none) (message : SidecarJobMessage)
    (published : Option ℕ) (frame : SidecarFrame) (health : Except Error Unit) :
    Attends (w.route message published frame health) := by
  have ht := h.told
  rw [given_due hbatch] at ht
  obtain ⟨ht', hn⟩ := (kept_told_serials h.unique w.channel.serials).route ⟨ht, rfl⟩ message frame
    health
  have horderly := fun p => h.orderly.route message p frame health
  have hd : Attends (w.decide (_, (w.channel.routeLocked message frame health).2.1)) :=
    h.decides hbatch ht' hn (horderly none) rfl (decide_history _ _) rfl
  have hroute := horderly published
  unfold World.route at hroute ⊢
  dsimp only at hroute ⊢
  cases published with
  | none => exact hd
  | some b =>
    refine hd.still hroute (.refl _) _ (fun x hx => ?_) rfl rfl
    rcases List.mem_cons.1 hx with rfl | hx
    · trivial
    · split_ifs at hx
      · exact absurd hx List.not_mem_nil
      · rw [List.mem_singleton.1 hx]
        trivial

theorem Attends.stopJoined (h : Attends w) (hs : w.step .stopJoined = some w') : Attends w' := by
  have ho := h.orderly.step hs
  unfold World.step at hs
  dsimp only at hs
  split_ifs at hs with hj
  obtain rfl := Option.some.inj hs
  obtain ⟨-, hr, hb, -⟩ := hj
  have hbatch : w.batch = none := Option.isNone_iff_eq_none.1 hb
  have ht := h.told
  rw [given_due hbatch] at ht
  obtain ⟨ht', hn⟩ := (kept_told_serials h.unique w.channel.serials).stop ⟨ht, rfl⟩
    (h.orderly.leaving hr)
  exact h.decides hbatch ht' hn ho rfl (decide_history _ _) rfl

/-- **The sink is called**: the next call of the batch is the next decided. -/
theorem Attends.callSink (h : Attends w) (hs : w.step .callSink = some w') : Attends w' := by
  have ho := h.orderly.step hs
  unfold World.step at hs
  dsimp only at hs
  split at hs
  · rename_i call rest n hbatch
    obtain rfl := Option.some.inj hs
    have ht := h.told
    unfold World.due at ht
    rw [hbatch] at ht
    have hgiven : given (w.history ++ [.called call]) ++ rest = given w.history ++ call :: rest := by
      rw [given_append, List.append_assoc]
      rfl
    have hs : ∀ n s, .submitted n s ∈ w.history ++ [.called call] → .submitted n s ∈ w.history :=
      fun n s hx => mem_of_ne_last hx (by simp)
    refine ⟨ho, ?_, fun h₁ h₂ => h.unique (hs _ _ h₁) (hs _ _ h₂), fun hn => ?_, fun hn => ?_, ?_⟩
    · show Told (w.history ++ [.called call]) w.channel
        (given (w.history ++ [.called call]) ++ rest)
      rw [hgiven]
      exact ht.grown (fun x hx => List.mem_append_left _ hx) hs fun key g hx =>
        mem_of_ne_last hx (by simp)
    · exact h.numbered (hs _ _ hn)
    · obtain ⟨hlt, hno⟩ := h.refused (mem_of_ne_last hn (by simp))
      exact ⟨hlt, fun s hx => hno s (hs _ _ hx)⟩
    · exact lawful_append_singleton.2 ⟨h.lawful, ht.lawful (given w.history) call rest rfl⟩
  · exact absurd hs (by simp)

/-- Nobody has the next number. -/
theorem Attends.not_submitted (h : Attends w) (s : SubmittedJob) :
    .submitted w.channel.serials s ∉ w.history :=
  fun hx => absurd (h.numbered hx) (Nat.lt_irrefl _)

/-- The number of a refused submission is used up. -/
theorem Attends.refuses (h : Attends w) {c : JobChannel} (hstill : Still w.channel c)
    (ho : Orderly ({ w with channel := { c with serials := c.serials + 1 } }.log
      [.refused w.channel.serials])) :
    Attends ({ w with channel := { c with serials := c.serials + 1 } }.log
      [.refused w.channel.serials]) := by
  have hold : ∀ n s, .submitted n s ∈ w.history ++ [.refused w.channel.serials] →
      .submitted n s ∈ w.history := fun n s hx => mem_of_ne_last hx (by simp)
  have hserials : c.serials + 1 = w.channel.serials + 1 := by rw [hstill.serials]
  have hgiven : given (w.history ++ [.refused w.channel.serials]) = given w.history := by
    rw [given_append]
    exact List.append_nil _
  have ht := h.told.grown
    (fun x hx => List.mem_append_left [Happening.refused w.channel.serials] hx) hold
    fun key g hx => mem_of_ne_last hx (by simp)
  rw [← hgiven] at ht
  refine ⟨ho, ht.same ho.exact hstill.jobs hstill.releasing hstill.releasedSessions
    hstill.sinkDetached, fun h₁ h₂ => h.unique (hold _ _ h₁) (hold _ _ h₂), fun hn => ?_,
    fun {n} hn => ?_, lawful_append_singleton.2 ⟨h.lawful, trivial⟩⟩
  · have hlt := h.numbered (hold _ _ hn)
    show _ < c.serials + 1
    omega
  · show n < c.serials + 1 ∧ _
    by_cases hlast : n = w.channel.serials
    · subst hlast
      exact ⟨by omega, fun s hx => h.not_submitted s (hold _ _ hx)⟩
    · obtain ⟨hlt, hno⟩ := h.refused (mem_of_ne_last hn (by simpa using hlast))
      exact ⟨by omega, fun s hx => hno s (hold _ _ hx)⟩

/-- An accepted submission has the next number. -/
theorem Attends.submits (h : Attends w) {c : JobChannel} {job : SubmittedJob}
    (ht : Told (w.history ++ [.submitted w.channel.serials job]) c (given w.history ++ w.due))
    (hserials : c.serials = w.channel.serials + 1)
    (ho : Orderly ({ w with channel := c }.log [.submitted w.channel.serials job])) :
    Attends ({ w with channel := c }.log [.submitted w.channel.serials job]) := by
  have hold : ∀ n s, .submitted n s ∈ w.history ++ [.submitted w.channel.serials job] →
      .submitted n s ∈ w.history ∨ (n = w.channel.serials ∧ s = job) := by
    intro n s hx
    by_cases hlast : n = w.channel.serials ∧ s = job
    · exact .inr hlast
    · exact .inl (mem_of_ne_last hx (by simpa using hlast))
  have hgiven : given (w.history ++ [.submitted w.channel.serials job]) = given w.history := by
    rw [given_append]
    exact List.append_nil _
  rw [← hgiven] at ht
  refine ⟨ho, ht, fun {n s s'} h₁ h₂ => ?_, fun hn => ?_, fun hn => ?_,
    lawful_append_singleton.2 ⟨h.lawful, trivial⟩⟩
  · rcases hold _ _ h₁ with h₁ | ⟨rfl, rfl⟩
    · rcases hold _ _ h₂ with h₂ | ⟨rfl, -⟩
      · exact h.unique h₁ h₂
      · exact absurd h₁ (h.not_submitted _)
    · rcases hold _ _ h₂ with h₂ | ⟨-, rfl⟩
      · exact absurd h₂ (h.not_submitted _)
      · rfl
  · show _ < c.serials
    rw [hserials]
    rcases hold _ _ hn with hn | ⟨rfl, -⟩
    · exact Nat.lt_succ_of_lt (h.numbered hn)
    · exact Nat.lt_succ_self _
  · obtain ⟨hlt, hno⟩ := h.refused (mem_of_ne_last hn (by simp))
    show _ < c.serials ∧ _
    rw [hserials]
    refine ⟨Nat.lt_succ_of_lt hlt, fun s hx => ?_⟩
    rcases hold _ _ hx with hx | ⟨rfl, -⟩
    · exact hno s hx
    · exact absurd hlt (Nat.lt_irrefl _)

theorem Attends.submit (h : Attends w) {job : SubmittedJob} {window : Bool}
    {encoded : Option Error} (hs : w.step (.submit job window encoded) = some w') : Attends w' := by
  have ho := h.orderly.step hs
  unfold World.step at hs
  dsimp only at hs
  rcases JobChannel.submit_cases (c := w.channel) job window encoded with
    ⟨c', error, hu, heq⟩ | ⟨-, -, -, -, -, hkey, hnone, -, heq⟩
  · rw [heq] at hs
    obtain rfl := Option.some.inj hs
    exact h.refuses (still_untouched hu) ho
  · rw [heq] at hs
    obtain rfl := Option.some.inj hs
    refine h.submits ?_ ?_ ho
    · refine h.told.submits ho.exact ?_ ?_ ?_ ?_ hnone hkey h.not_submitted
      · exact fun a => jobs_withJob job a
      · rfl
      · rfl
      · rfl
    · rfl

/-- A call that is accepted and is no submission. -/
theorem Attends.accepts (h : Attends w) {c : JobChannel} {x : Happening}
    (ho : Orderly ({ w with channel := c }.log [x]))
    (ht : Told (w.history ++ [x]) c (given w.history ++ w.due))
    (hserials : c.serials = w.channel.serials) (hcalled : ∀ d, x ≠ .called d)
    (hsub : ∀ n s, x ≠ .submitted n s) (href : ∀ n, x ≠ .refused n) :
    Attends ({ w with channel := c }.log [x]) := by
  have hold : ∀ n s, .submitted n s ∈ w.history ++ [x] → .submitted n s ∈ w.history :=
    fun n s hx => mem_of_ne_last hx (hsub n s).symm
  have hgiven : given [x] = [] := by
    cases x <;> first | rfl | exact absurd rfl (hcalled _)
  refine ⟨ho, ?_, fun h₁ h₂ => h.unique (hold _ _ h₁) (hold _ _ h₂), fun hn => ?_, fun {n} hn => ?_,
    lawful_append_singleton.2 ⟨h.lawful, ?_⟩⟩
  · show Told _ _ (given (w.history ++ [x]) ++ w.due)
    rw [given_append, hgiven, List.append_nil]
    exact ht
  · show _ < c.serials
    rw [hserials]
    exact h.numbered (hold _ _ hn)
  · obtain ⟨hlt, hno⟩ := h.refused (mem_of_ne_last hn (href n).symm)
    show _ < c.serials ∧ _
    rw [hserials]
    exact ⟨hlt, fun s hx => hno s (hold _ _ hx)⟩
  · cases x <;> first | exact absurd rfl (hcalled _) | trivial

theorem Attends.cancel (h : Attends w) {jobId : ℕ} {encoded : Option Error}
    (hs : w.step (.cancel jobId encoded) = some w') : Attends w' := by
  have ho := h.orderly.step hs
  unfold World.step at hs
  dsimp only at hs
  have hgrown : ∀ n, Told (w.history ++ [.cancelled n]) w.channel (given w.history ++ w.due) :=
    fun n => h.told.grown (fun x hx => List.mem_append_left _ hx)
      (fun n s hx => mem_of_ne_last hx (by simp)) fun key g hx => mem_of_ne_last hx (by simp)
  rcases JobChannel.cancel_cases (c := w.channel) jobId encoded with
    ⟨c', error, hu, heq⟩ | ⟨job, hj, hcase⟩
  · rw [heq] at hs
    obtain rfl := Option.some.inj hs
    exact h.still ho (still_untouched hu) [] (fun x hx => absurd hx List.not_mem_nil) rfl rfl
  have hserial : (w.serialOf jobId).toList.map Happening.cancelled = [.cancelled job.serial] := by
    unfold World.serialOf
    rw [hj]
    rfl
  rcases hcase with ⟨-, heq⟩ | ⟨-, -, heq⟩
  · rw [heq] at hs
    dsimp only at hs
    rw [hserial] at hs
    obtain rfl := Option.some.inj hs
    exact h.accepts ho (hgrown _) rfl (by simp) (by simp) (by simp)
  · rw [heq] at hs
    dsimp only at hs
    rw [hserial] at hs
    obtain rfl := Option.some.inj hs
    exact h.accepts ho ((hgrown _).cancels hj ho.exact) rfl (by simp) (by simp) (by simp)

theorem Attends.releaseSession (h : Attends w) {key generation : ℕ} {encoded : Option Error}
    (hs : w.step (.releaseSession key generation encoded) = some w') : Attends w' := by
  have ho := h.orderly.step hs
  unfold World.step at hs
  dsimp only at hs
  rcases JobChannel.releaseSession_cases (c := w.channel) key generation encoded with
    ⟨c', error, hu | ⟨-, -, rfl⟩, heq⟩ | ⟨-, ⟨hknown, heq⟩ | ⟨hnone, hkey, -, heq⟩⟩
  · rw [heq] at hs
    obtain rfl := Option.some.inj hs
    exact h.still ho (still_untouched hu) [] (fun x hx => absurd hx List.not_mem_nil) rfl rfl
  · -- The key counts as released although its session is not told so.
    rw [heq] at hs
    obtain rfl := Option.some.inj hs
    have hlog : World.log { w with channel := w.channel.taken key } [] =
        { w with channel := w.channel.taken key } := by
      unfold World.log
      rw [List.append_nil]
    dsimp only at ho ⊢
    rw [hlog] at ho ⊢
    refine ⟨ho, ?_, h.unique, h.numbered, h.refused, h.lawful⟩
    have ht := h.told
    exact
      { toExact := ho.exact
        attached := ht.attached
        lawful := ht.lawful
        open' := ht.open'
        closed := ht.closed
        pending := ht.pending
        recorded := fun hmem =>
          (ReleasedSessionKeys.contains_insert _ _ _).2 (.inr (ht.recorded hmem))
        accepted := ht.accepted }
  · rw [heq] at hs
    dsimp only at hs
    have hnew : (!(w.channel.releasing.contains key ||
        w.channel.releasedSessions.contains key)) = false := by
      rw [Bool.not_eq_false', Bool.or_eq_true]
      refine hknown.imp_left fun hne => ?_
      rw [Std.TreeMap.contains_iff_mem]
      by_contra hmem
      exact hne (Table.getElem?_eq_none.2 hmem)
    rw [hnew] at hs
    obtain rfl := Option.some.inj hs
    refine h.accepts ho (h.told.grown (fun x hx => List.mem_append_left _ hx)
      (fun n s hx => mem_of_ne_last hx (by simp)) fun key g hx => mem_of_ne_last hx (by simp))
      rfl (by simp) (by simp) (by simp)
  · rw [heq] at hs
    dsimp only at hs
    have hnew : (!(w.channel.releasing.contains key ||
        w.channel.releasedSessions.contains key)) = true := by
      rw [Bool.not_eq_true', Bool.or_eq_false_iff]
      refine ⟨?_, hkey⟩
      rw [← Bool.not_eq_true, Std.TreeMap.contains_iff_mem]
      exact Table.getElem?_eq_none.1 hnone
    rw [hnew] at hs
    obtain rfl := Option.some.inj hs
    exact h.accepts ho (h.told.releases ho.exact rfl hnone hkey) rfl (by simp) (by simp) (by simp)

/-- A step of the threads or of a caller that is not told to the sink. -/
theorem Attends.rests (h : Attends w) (ho : Orderly w') (hc : Still w.channel w'.channel)
    (hhist : w'.history = w.history) (hdue : w'.due = w.due) : Attends w' :=
  h.still ho hc [] (fun x hx => absurd hx List.not_mem_nil) (by rw [hhist, List.append_nil]) hdue

/-- **Every step keeps the invariant**, but for a detach. -/
theorem Attends.step {a : Action} (h : Attends w) (hok : a ≠ .detachBegin)
    (hs : w.step a = some w') : Attends w' := by
  have ho := h.orderly.step hs
  cases a with
  | start isOpen jobClasses threads =>
    have hc := still_start (c := w.channel) isOpen jobClasses threads
    unfold World.step at hs
    dsimp only at hs
    split_ifs at hs
    split at hs
    · obtain rfl := Option.some.inj hs
      exact h.rests ho hc rfl rfl
    · obtain rfl := Option.some.inj hs
      exact h.rests ho hc rfl rfl
  | admitJobs =>
    obtain rfl := Option.some.inj hs
    exact h.rests ho (still_admitJobs _) rfl rfl
  | closeAdmission =>
    obtain rfl := Option.some.inj hs
    exact h.rests ho (still_closeAdmission _) rfl rfl
  | retire =>
    obtain rfl := Option.some.inj hs
    exact h.rests ho ⟨rfl, rfl, rfl, rfl, rfl⟩ rfl rfl
  | setEventSink isNull =>
    obtain rfl := Option.some.inj hs
    exact h.rests ho (still_setEventSink isNull) rfl rfl
  | detachBegin => exact absurd rfl hok
  | detachEnd =>
    unfold World.step at hs
    dsimp only at hs
    rw [if_neg (by simp [h.told.attached])] at hs
    exact absurd hs (by simp)
  | submit job window encoded => exact h.submit hs
  | cancel jobId encoded => exact h.cancel hs
  | releaseSession key generation encoded => exact h.releaseSession hs
  | exchange messageId encoded =>
    have hc := still_exchange (c := w.channel) messageId encoded
    unfold World.step at hs
    dsimp only at hs
    split at hs
    · obtain rfl := Option.some.inj hs
      exact h.rests ho hc rfl rfl
    · obtain rfl := Option.some.inj hs
      exact h.rests ho hc rfl rfl
  | exchangeWake ticket =>
    unfold World.step at hs
    dsimp only at hs
    split_ifs at hs
    obtain rfl := Option.some.inj hs
    exact h.rests ho (still_exchangeWake ticket) rfl rfl
  | probeHealth encoded =>
    have hc := still_probeHealth (c := w.channel) encoded
    unfold World.step at hs
    dsimp only at hs
    split at hs
    · obtain rfl := Option.some.inj hs
      exact h.rests ho hc rfl rfl
    · obtain rfl := Option.some.inj hs
      exact h.rests ho hc rfl rfl
  | probeWake probe =>
    unfold World.step at hs
    dsimp only at hs
    split_ifs at hs
    obtain rfl := Option.some.inj hs
    exact h.rests ho (still_probeWake probe) rfl rfl
  | drawMessageId =>
    obtain rfl := Option.some.inj hs
    exact h.rests ho ⟨rfl, rfl, rfl, rfl, rfl⟩ rfl rfl
  | readFrame content publication frame health =>
    unfold World.step at hs
    dsimp only at hs
    split_ifs at hs with hr
    rw [not_or, not_or, ne_eq, not_not, Option.not_isSome_iff_eq_none] at hr
    split at hs
    · obtain rfl := Option.some.inj hs
      exact h.endConnection hr.1 hr.2.1 _
    · obtain rfl := Option.some.inj hs
      exact h.route hr.2.1 _ _ _ _
  | readError error =>
    unfold World.step at hs
    dsimp only at hs
    split_ifs at hs with hr
    rw [not_or, ne_eq, not_not, Option.not_isSome_iff_eq_none] at hr
    obtain rfl := Option.some.inj hs
    exact h.endConnection hr.1 hr.2 _
  | callSink => exact h.callSink hs
  | delivered =>
    unfold World.step at hs
    dsimp only at hs
    split at hs
    · rename_i n hbatch
      obtain rfl := Option.some.inj hs
      refine h.rests ho ⟨rfl, rfl, rfl, rfl, rfl⟩ rfl ?_
      unfold World.due
      rw [hbatch]
    · exact absurd hs (by simp)
  | takeFrame =>
    unfold World.step at hs
    dsimp only at hs
    split_ifs at hs
    split at hs
    · exact absurd hs (by simp)
    · obtain rfl := Option.some.inj hs
      refine h.still ho ⟨rfl, rfl, rfl, rfl, rfl⟩ _ (fun x hx => ?_) rfl rfl
      rw [List.mem_singleton.1 hx]
      trivial
  | writerLeaves =>
    unfold World.step at hs
    dsimp only at hs
    split_ifs at hs
    obtain rfl := Option.some.inj hs
    exact h.rests ho (.refl _) rfl rfl
  | writeDone =>
    unfold World.step at hs
    dsimp only at hs
    split at hs
    · obtain rfl := Option.some.inj hs
      exact h.rests ho (.refl _) rfl rfl
    · exact absurd hs (by simp)
  | writeFailed error =>
    unfold World.step at hs
    dsimp only at hs
    split at hs
    · obtain rfl := Option.some.inj hs
      exact h.rests ho ⟨rfl, rfl, rfl, rfl, rfl⟩ rfl rfl
    · exact absurd hs (by simp)
  | stopBegin reason =>
    unfold World.step JobChannel.stopBegin at hs
    dsimp only at hs
    split_ifs at hs
    · obtain rfl := Option.some.inj hs
      refine h.still ho (.refl _) _ (fun x hx => ?_) rfl rfl
      rw [List.mem_singleton.1 hx]
      trivial
    · obtain rfl := Option.some.inj hs
      exact h.rests ho ⟨rfl, rfl, rfl, rfl, rfl⟩ rfl rfl
  | stopJoined => exact h.stopJoined hs
  | stopReturns =>
    unfold World.step at hs
    dsimp only at hs
    split_ifs at hs
    obtain rfl := Option.some.inj hs
    refine h.still ho (.refl _) _ (fun x hx => ?_) rfl rfl
    rw [List.mem_singleton.1 hx]
    trivial

end

theorem attends_fresh (manager : Bool) : Attends (fresh manager) where
  orderly := orderly_fresh manager
  told :=
    { toExact := (orderly_fresh manager).exact
      attached := rfl
      lawful := lawful_nil
      open' := fun hj => by simp [fresh] at hj
      closed := fun hn => absurd hn List.not_mem_nil
      pending := fun hp => by simp [fresh] at hp
      recorded := fun hmem => absurd hmem List.not_mem_nil
      accepted := fun hacc => absurd hacc List.not_mem_nil }
  unique := fun h₁ _ => absurd h₁ List.not_mem_nil
  numbered := fun hn => absurd hn List.not_mem_nil
  refused := fun hn => absurd hn List.not_mem_nil
  lawful := lawful_nil

/-- **The calls of a sink that stays attached.** In every run each call is
one that may be made then: an event belongs to a submission, follows the
submission's earlier events in the order of a job, acknowledges only a cancel
that was accepted, and comes before the release of its session; a session is
told released once, behind the last event of each of its jobs. A refused
submission is told nothing. Where a stop returns, every job that was
submitted was told its release and every session whose release was accepted
was told so. -/
theorem sink_told_in_order {manager : Bool} {w : World}
    (hrun : Run World.step Attached (fresh manager) w) :
    Lawful MayHappen w.history ∧
      (∀ n, .refused n ∈ w.history → ∀ e, .called (.event n e) ∉ w.history) ∧
      ∀ w', w.step .stopReturns = some w' →
        (∀ n s, .submitted n s ∈ w.history →
          ∃ e, e.body = .released ∧ .called (.event n e) ∈ w.history) ∧
        ∀ key g, .releaseAccepted key g true ∈ w.history →
          .called (.sessionReleased key g) ∈ w.history := by
  have h : Attends w := hrun.invariant (attends_fresh manager) fun _ _ _ h hok hs => h.step hok hs
  refine ⟨h.lawful, fun n hn e hcalled => ?_, fun w' hs => ?_⟩
  · have hmem : .event n e ∈ given w.history ++ w.due :=
      List.mem_append_left _ (mem_given.2 hcalled)
    obtain ⟨s, hsub⟩ := h.told.submitted_of_event hmem
    exact (h.refused hn).2 s hsub
  unfold World.step at hs
  dsimp only at hs
  split_ifs at hs with hd
  obtain ⟨hj, hr, -, -, -⟩ := h.orderly.exact.quiet (.inr (h.orderly.delivering hd.1))
  have ht := h.told
  rw [given_due (Option.isNone_iff_eq_none.1 hd.2)] at ht
  refine ⟨fun n s hn => ?_, fun key g hacc => ?_⟩
  · rcases ht.closed hn with ⟨k, job, hk, -⟩ | ⟨e, he, hbody⟩
    · rw [hj] at hk
      exact absurd hk (by simp)
    · exact ⟨e, hbody, mem_given.1 (mem_eventsOf.1 he)⟩
  · rcases ht.accepted hacc with ⟨p, hp, -⟩ | hmem
    · rw [hr] at hp
      exact absurd hp (by simp)
    · exact mem_given.1 hmem

/-- A segment to synthesise, for session 7. -/
def oneSegment : SubmittedJob where
  request := ⟨⟨3, 7, 1⟩, .textSegment [104, 105], ⟨[101, 110], [97], 1000⟩⟩
  progressLimit := 4
  identity_valid := rfl

/-- The job is accepted, its connection ends, and the channel is stopped. -/
def cutShort : List Action :=
  [.start true [.ttsSynthesis] true, .setEventSink false, .admitJobs,
    .submit oneSegment true none, .takeFrame, .writeDone,
    .readFrame (.message (.event ⟨⟨3, 7, 1⟩, .accepted⟩)) .usable ⟨""⟩ (.ok ()), .callSink,
    .delivered, .readError ⟨.inferenceFailed, "closed", none⟩, .callSink, .delivered,
    .writerLeaves, .stopBegin "session_unloaded", .stopJoined, .callSink, .delivered]

/-- Any step but a detach. -/
def stays (_ : World) : Action → Bool
  | .detachBegin => false
  | _ => true

/-- The first submission. -/
def isFirst : Happening → Bool
  | .submitted 0 _ => true
  | _ => false

theorem cutShort_ends :
    ((exec (fun w a => if stays w a then w.step a else none) (fresh true) cutShort).bind fun w =>
      (w.step .stopReturns).map fun _ => ((given w.history).length, w.history.any isFirst)) =
        some (3, true) := by
  decide +kernel

theorem sink_told_in_order_cut : ∃ w, Run World.step Attached (fresh true) w ∧
    (given w.history).length = 3 ∧ Lawful MayHappen w.history ∧
    ∃ e, e.body = .released ∧ .called (.event 0 e) ∈ w.history := by
  obtain ⟨w, hexec, hrest⟩ := Option.bind_eq_some_iff.1 cutShort_ends
  obtain ⟨w', hstop, hread⟩ := Option.map_eq_some_iff.1 hrest
  obtain ⟨hlen, hany⟩ := Prod.mk.inj hread
  have hrun : Run World.step Attached (fresh true) w := Run.of_checked (fun _ a ha heq => by
    rw [heq] at ha
    exact Bool.noConfusion ha) hexec
  obtain ⟨hlawful, -, hends⟩ := sink_told_in_order hrun
  obtain ⟨x, hx, hfirst⟩ := List.any_eq_true.1 hany
  obtain ⟨s, rfl⟩ : ∃ s, x = .submitted 0 s := by
    unfold isFirst at hfirst
    split at hfirst
    · exact ⟨_, rfl⟩
    · exact absurd hfirst (by decide)
  exact ⟨w, hrun, hlen, hlawful, (hends w' hstop).1 0 s hx⟩

end Channel

end Tensorplate
