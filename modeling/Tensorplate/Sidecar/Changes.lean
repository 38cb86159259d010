import Tensorplate.Sidecar.Placement

/-!
# The changes of the table

Every call of a thread is a sequence of these changes, with the table
sound in between. What they keep is kept by every run.
-/

namespace Tensorplate

namespace Sidecar

open Lib

variable {σ : Type} {t t' : Table σ} {r q : Ref} {loose : List Ref}

/-- The table with the job object of a new submit. -/
def Table.made (t : Table σ) (header : Header) (job : Job) : Table σ :=
  (t.arrive header).setJob t.next job

/-- The table that took note of a submit, with what was answered. -/
def Table.noted (t : Table σ) (header : Header) (answers : List (Entry σ)) : Table σ :=
  { t.arrive header with log := (t.arrive header).log ++ answers }

/-- An answer that belongs to no job. -/
def Entry.IsAnswer (e : Entry σ) : Prop :=
  ∃ messageId error, e = .sent (.errorEvent messageId error)

/-- What a submit that is read makes. -/
structure Made (t : Table σ) (header : Header) (job : Job) : Prop extends Unsent job where
  fresh : ∀ q ∈ t.jobs, (t.objects q).identity.jobId ≠ job.identity.jobId
  submit : isText (get header "kind") "job_submit" = true
  vad : Table.vadSession? header = if job.vad then some job.session else none

/-- What an admitted submit makes. -/
structure Admitted (t : Table σ) (header : Header) (job : Job) : Prop extends
    Made t header job where
  request : ∃ payload request, readSubmit header payload = .ok request ∧
    job.request = some request ∧ job.vad = decide (request.jobClass = .vadFrames)
  backend : job.backend = t.backend
  enabled : t.backend.isSome = true
  releasing : t.releasing job.session = false

/-- The job is on one of the threads. -/
def Table.Runs (t : Table σ) (r : Ref) : Prop := t.running = some r ∨ t.vadRunning = some r

/-- **One reaction to a message.** -/
inductive Reaction (t : Table σ) : Table σ → Prop
  /-- A message is answered without a job. -/
  | note {e : Entry σ} (he : e.IsAnswer) : Reaction t (t.mark e)
  /-- A submit runs nothing. -/
  | unread {header : Header} {answers : List (Entry σ)}
      (hsubmit : isText (get header "kind") "job_submit" = true) (h : ∀ e ∈ answers, e.IsAnswer) :
    Reaction t ((t.noted header answers).resetUnrun header)
  | refused {t' : Table σ} {header : Header} {job : Job} {error : ErrorObject}
      (hmade : Made t header job)
      (h : Ended (t.made header job) ((t.made header job).leaveLane t.next) t' t.next error) :
    Reaction t t'
  | accepted {t' : Table σ} {header : Header} {job : Job} (hadmitted : Admitted t header job)
      (h : Accepted (t.made header job) t' t.next) : Reaction t t'
  | acknowledged {t' : Table σ} {r : Ref} (hr : t.Runs r)
      (hc : (t.objects r).cancelled = false) (h : Acknowledged t t' r) : Reaction t t'
  | cancelled {t₁ t' : Table σ} {r : Ref} {error : ErrorObject} (hr : r ∈ t.waiting)
      (h₁ : Acknowledged t t₁ r) (h : Ended t₁ (t₁.leaveLane r) t' r error) : Reaction t t'
  | failed {t' : Table σ} {r : Ref} {error : ErrorObject} (hr : r ∈ t.waiting)
      (h : Ended t (t.leaveLane r) t' r error) : Reaction t t'
  | pended {s : Session} (hs : t.releasing s = false)
      (hlive : ∃ q ∈ t.jobs, (t.objects q).session = s) :
    Reaction t { t with
      releasing := Function.update t.releasing s true
      log := t.log ++ [.pending s] }
  | released {s : Session} (hs : t.releasing s = false)
      (hlive : ∀ q ∈ t.jobs, (t.objects q).session ≠ s) :
    Reaction t { t with
      vadSessions := Function.update t.vadSessions s none
      log := t.log ++ [.pending s, .sent (.sessionReleased s)] }

/-- A closing request comes; it disables the job messages. -/
def Table.close (t : Table σ) : Table σ :=
  { t with
    next := t.next + 1
    closing := t.next :: t.closing
    backend := none
    log := t.log ++ [.closes t.next] }

/-- **One change of the table.** -/
inductive Change (t : Table σ) : Table σ → Prop
  | reacts {t' : Table σ} (h : Reaction t t') : Change t t'
  | closes : Change t t.close
  /-- A unary request comes, and is queued. -/
  | numbered : Change t { t with next := t.next + 1 }
  | queued (f : Frame) : Change t { t with lane := t.lane ++ [.frame f] }
  | takenJob {r : Ref} {rest : List Work} (hlane : t.lane = .job r :: rest)
      (hidle : t.running = none) : Change t { t with lane := rest, running := some r }
  | takenFrame {f : Frame} {rest : List Work} (hlane : t.lane = .frame f :: rest) :
    Change t { t with lane := rest }
  | closed {f : Frame} {rest : List Work} (hlane : t.lane = .frame f :: rest)
      (hjobs : t.jobs = []) (hbackend : t.backend = none) : Change t { t with
      lane := rest
      closing := t.closing.filter fun id => id ≠ f.id
      vadSessions := fun _ => none
      log := t.log ++ [.closed f.id] }
  | takenVad {r : Ref} {rest : List Ref} (hlane : t.vadLane = r :: rest)
      (hidle : t.vadRunning = none) : Change t { t with vadLane := rest, vadRunning := some r }
  | opened (runsVad : Bool) (classes : List JobClass) : Change t (t.open runsVad classes)
  | started {r : Ref} {backend : Backend} {given : Option (Option σ)} (hr : t.Runs r)
      (hbackend : (t.objects r).backend = some backend)
      (hgiven : given.isSome = (t.objects r).vad) : Change t (t.mark (.started r backend given))
  | failedRun {t' : Table σ} {r : Ref} {error : ErrorObject} (hr : t.Runs r)
      (h : Ended (t.letGo r) ((t.letGo r).leaveLane r) t' r error) : Change t t'
  | completedRun {t' : Table σ} {r : Ref} {rendered : Rendered} {state : Option σ} (hr : t.Runs r)
      (h : Completed (t.letGo r) t' r rendered state) : Change t t'

/-! ## The table stays sound -/

/-- What the places depend on. -/
theorem Sound.congr (h : Sound t loose) (hrefs : t'.refs = t.refs) (hvadLane : t'.vadLane = t.vadLane)
    (hjobs : t'.jobs = t.jobs) (hrunning : t'.running = t.running)
    (hvadRunning : t'.vadRunning = t.vadRunning) (hreleasing : t'.releasing = t.releasing)
    (hnext : t.next ≤ t'.next) (hcore : ∀ q ∈ t.jobs, (t'.objects q).core = (t.objects q).core) :
    Sound t' loose := by
  have hplaced : t'.placed loose = t.placed loose := by
    unfold Table.placed Table.waiting
    rw [hrefs, hvadLane, hrunning, hvadRunning]
  have hmem : ∀ q, q ∈ t.placed loose → (t'.objects q).core = (t.objects q).core :=
    fun q hq => hcore q ((h.mem_placed q).1 hq)
  refine ⟨?_, ?_, ?_, ?_, ?_, ?_, ?_, ?_, ?_⟩
  · rw [hjobs]
    exact h.nodup
  · rw [hplaced]
    exact h.placed
  · rw [hplaced, hjobs]
    exact h.mem_placed
  · rw [hjobs]
    intro q hq q' hq' hid
    rw [(core_eq (hcore q hq)).1, (core_eq (hcore q' hq')).1] at hid
    exact h.ids q hq q' hq' hid
  · rw [hjobs]
    intro q hq
    exact (h.old q hq).trans_le hnext
  · rw [hjobs]
    intro q hq
    exact (h.live q hq).of_core (hcore q hq)
  · rw [hrefs, hrunning]
    intro q hq
    have hq' : q ∈ t.placed loose := by
      unfold Table.placed Table.waiting
      simp only [List.mem_append] at hq ⊢
      tauto
    rw [(core_eq (hmem q hq')).2.2.2.2.2]
    exact h.main q hq
  · rw [hvadLane, hvadRunning]
    intro q hq
    have hq' : q ∈ t.placed loose := by
      unfold Table.placed Table.waiting
      simp only [List.mem_append] at hq ⊢
      tauto
    rw [(core_eq (hmem q hq')).2.2.2.2.2]
    exact h.vad q hq
  · rw [hreleasing, hjobs]
    intro s hs
    obtain ⟨q, hq, hqs⟩ := h.pending s hs
    exact ⟨q, hq, by rw [core_session (hcore q hq), hqs]⟩

theorem Calm.congr (h : Calm t) (hrefs : t'.refs = t.refs) (hvadLane : t'.vadLane = t.vadLane)
    (hcancelled : ∀ q ∈ t.waiting, (t'.objects q).cancelled = (t.objects q).cancelled) :
    Calm t' := by
  intro q hq
  unfold Table.waiting at hq
  rw [hrefs, hvadLane] at hq
  rw [hcancelled q hq]
  exact h q hq

theorem made_object (t : Table σ) (header : Header) (job : Job) :
    (t.made header job).objects t.next = job := if_pos rfl

theorem made_other (t : Table σ) (header : Header) (job : Job) (hq : q ≠ t.next) :
    (t.made header job).objects q = t.objects q := if_neg hq

theorem Sound.ne_next (h : Sound t loose) (hq : q ∈ t.jobs) : q ≠ t.next := (h.old q hq).ne

theorem Sound.made (h : Sound t loose) (header : Header) (job : Job) :
    Sound (t.made header job) loose :=
  h.congr rfl rfl rfl rfl rfl rfl (Nat.le_succ _) fun q hq => by
    rw [made_other t header job (h.ne_next hq)]

theorem Calm.made (hcalm : Calm t) (h : Sound t loose) (header : Header) (job : Job) :
    Calm (t.made header job) :=
  hcalm.congr rfl rfl fun q hq => by
    rw [made_other t header job (h.ne_next (h.job_of_waiting hq))]

/-- No live job has the identifier of a submit that is made. -/
theorem Made.ids {header : Header} {job : Job} (hmade : Made t header job) (h : Sound t loose)
    (q : Ref) (hq : q ∈ (t.made header job).jobs)
    (hid : ((t.made header job).objects q).identity.jobId =
      ((t.made header job).objects t.next).identity.jobId) : q = t.next := by
  rw [made_object, made_other t header job (h.ne_next hq)] at hid
  exact absurd hid (hmade.fresh q hq)

/-- **The job that is admitted is sound.** -/
theorem Accepted.sound (h : Accepted t t' r) (hsound : Sound t loose) (hr : r ∉ t.jobs)
    (hold : r < t.next) (hlive : Live (t.admitted r)) (hids : ∀ q ∈ t.jobs,
      (t.objects q).identity.jobId ≠ (t.objects r).identity.jobId) : Sound t' loose := by
  have hobjects : ∀ q ∈ t.jobs, t'.objects q = t.objects q := by
    intro q hq
    exact h.others q fun hqr => hr (hqr ▸ hq)
  have hidentity : (t'.objects r).identity = (t.objects r).identity := by
    rw [h.object]
    rfl
  have hvad' : (t'.objects r).vad = (t.objects r).vad := by
    rw [h.object]
    rfl
  have hjobs : ∀ q, q ∈ t'.jobs ↔ q ∈ t.jobs ∨ q = r := by
    intro q
    rw [h.jobs, List.mem_append, List.mem_singleton]
  have hnot : r ∉ t.placed loose := fun hmem => hr ((hsound.mem_placed r).1 hmem)
  have hperm : (t'.placed loose).Perm (r :: t.placed loose) := by
    unfold Table.placed Table.waiting Table.refs
    rw [h.lane, h.vadLane, h.running, h.vadRunning]
    split_ifs with hvad
    · let rest : List Ref := t.running.toList ++ (t.vadRunning.toList ++ loose)
      have hmiddle : ((t.lane.filterMap Work.ref? ++ t.vadLane) ++ r :: rest).Perm
          (r :: ((t.lane.filterMap Work.ref? ++ t.vadLane) ++ rest)) := List.perm_middle
      simpa [rest] using hmiddle
    · rw [List.filterMap_append]
      simp [Work.ref?]
  refine ⟨?_, ?_, fun q => ?_, ?_, ?_, ?_, ?_, ?_, ?_⟩
  · rw [h.jobs, List.nodup_append]
    refine ⟨hsound.nodup, List.pairwise_singleton _ r, fun q hq q' hq' heq => ?_⟩
    rw [List.mem_singleton] at hq'
    exact hr (by rw [← hq', ← heq]; exact hq)
  · rw [hperm.nodup_iff, List.nodup_cons]
    exact ⟨hnot, hsound.placed⟩
  · rw [hperm.mem_iff, List.mem_cons, hsound.mem_placed, hjobs]
    exact Or.comm
  · intro q hq q' hq' hid
    rcases (hjobs q).1 hq with hq | hq
    · rcases (hjobs q').1 hq' with hq' | hq'
      · rw [hobjects q hq, hobjects q' hq'] at hid
        exact hsound.ids q hq q' hq' hid
      · rw [hq', hidentity, hobjects q hq] at hid
        exact absurd hid (hids q hq)
    · rcases (hjobs q').1 hq' with hq' | hq'
      · rw [hq, hidentity, hobjects q' hq'] at hid
        exact absurd hid.symm (hids q' hq')
      · rw [hq, hq']
  · intro q hq
    rw [h.next]
    rcases (hjobs q).1 hq with hq | hq
    · exact hsound.old q hq
    · rw [hq]
      exact hold
  · intro q hq
    rcases (hjobs q).1 hq with hq | hq
    · rw [hobjects q hq]
      exact hsound.live q hq
    · rw [hq, h.object]
      exact hlive
  · intro q hq
    by_cases hqr : q = r
    · rw [hqr, hvad']
      by_contra hvad
      rw [Bool.not_eq_false] at hvad
      unfold Table.refs at hq
      rw [h.lane, if_pos hvad, h.running, hqr] at hq
      refine hnot ?_
      unfold Table.placed Table.waiting Table.refs
      simp only [List.mem_append] at hq ⊢
      tauto
    · rw [h.others q hqr]
      apply hsound.main q
      unfold Table.refs at hq ⊢
      rw [h.lane, h.running] at hq
      split_ifs at hq
      · exact hq
      · rw [List.filterMap_append] at hq
        simp only [List.mem_append] at hq ⊢
        rcases hq with (hq | hq) | hq
        · exact Or.inl hq
        · exact absurd (by simpa [Work.ref?] using hq) hqr
        · exact Or.inr hq
  · intro q hq
    by_cases hqr : q = r
    · rw [hqr, hvad']
      by_contra hvad
      rw [Bool.not_eq_true] at hvad
      rw [h.vadLane, h.vadRunning, hvad, if_neg Bool.false_ne_true, hqr] at hq
      refine hnot ?_
      unfold Table.placed Table.waiting
      simp only [List.mem_append] at hq ⊢
      tauto
    · rw [h.others q hqr]
      apply hsound.vad q
      rw [h.vadLane, h.vadRunning] at hq
      split_ifs at hq
      · simp only [List.mem_append, List.mem_singleton] at hq ⊢
        tauto
      · exact hq
  · intro s hs
    rw [h.releasing] at hs
    obtain ⟨q, hq, hqs⟩ := hsound.pending s hs
    exact ⟨q, (hjobs q).2 (Or.inl hq), by rw [hobjects q hq, hqs]⟩

theorem Accepted.calm (h : Accepted t t' r) (hcalm : Calm t)
    (hc : (t.objects r).cancelled = false) : Calm t' := by
  intro q hq
  by_cases hqr : q = r
  · rw [hqr, h.object]
    exact hc
  · rw [h.others q hqr]
    apply hcalm q
    unfold Table.waiting Table.refs at hq ⊢
    rw [h.lane, h.vadLane] at hq
    split_ifs at hq
    · simp only [List.mem_append, List.mem_singleton] at hq ⊢
      tauto
    · rw [List.filterMap_append] at hq
      simp only [List.mem_append] at hq ⊢
      rcases hq with (hq | hq) | hq
      · exact Or.inl hq
      · exact absurd (by simpa [Work.ref?] using hq) hqr
      · exact Or.inr hq

theorem Acknowledged.core (h : Acknowledged t t' r) (hq : q ≠ r) :
    (t'.objects q).core = (t.objects q).core := by
  rw [h.others q hq]

/-- The acknowledgement of a cancel leaves every job in its place. -/
theorem Acknowledged.sound (h : Acknowledged t t' r) (hsound : Sound t loose) : Sound t' loose := by
  have hidentity : ∀ q, (t'.objects q).identity = (t.objects q).identity := by
    intro q
    by_cases hq : q = r
    · rw [hq, h.object]
      rfl
    · rw [h.others q hq]
  have hvad : ∀ q, (t'.objects q).vad = (t.objects q).vad := by
    intro q
    by_cases hq : q = r
    · rw [hq, h.object]
      rfl
    · rw [h.others q hq]
  have hplaced : t'.placed loose = t.placed loose := by
    unfold Table.placed Table.waiting Table.refs
    rw [h.lane, h.vadLane, h.running, h.vadRunning]
  refine ⟨?_, ?_, ?_, ?_, ?_, ?_, ?_, ?_, ?_⟩
  · rw [h.jobs]
    exact hsound.nodup
  · rw [hplaced]
    exact hsound.placed
  · rw [hplaced, h.jobs]
    exact hsound.mem_placed
  · rw [h.jobs]
    intro q hq q' hq' hid
    rw [hidentity, hidentity] at hid
    exact hsound.ids q hq q' hq' hid
  · rw [h.jobs, h.next]
    exact hsound.old
  · rw [h.jobs]
    intro q hq
    by_cases hqr : q = r
    · rw [hqr, h.object]
      rw [hqr] at hq
      exact (hsound.live r hq).acknowledge
    · rw [h.others q hqr]
      exact hsound.live q hq
  · unfold Table.refs
    rw [h.lane, h.running]
    intro q hq
    rw [hvad]
    exact hsound.main q hq
  · rw [h.vadLane, h.vadRunning]
    intro q hq
    rw [hvad]
    exact hsound.vad q hq
  · rw [h.releasing, h.jobs]
    intro s hs
    obtain ⟨q, hq, hqs⟩ := hsound.pending s hs
    refine ⟨q, hq, ?_⟩
    unfold Job.session
    rw [hidentity]
    exact hqs

theorem Sound.job_of_runs (h : Sound t loose) (hr : t.Runs r) : r ∈ t.jobs := by
  rcases hr with hr | hr
  · exact h.job_of_running hr
  · exact h.job_of_vadRunning hr

theorem Sound.not_waiting_of_runs (h : Sound t loose) (hr : t.Runs r) : r ∉ t.waiting := by
  intro hmem
  rcases hr with hr | hr
  · exact h.not_running_of_waiting hmem hr
  · exact h.not_vadRunning_of_waiting hmem hr

/-- The fields that a thread leaves alone as it lets go of its job. -/
theorem letGo_frame (t : Table σ) (r : Ref) : (t.letGo r).lane = t.lane ∧
    (t.letGo r).vadLane = t.vadLane ∧ (t.letGo r).jobs = t.jobs ∧
    (t.letGo r).objects = t.objects ∧ (t.letGo r).releasing = t.releasing ∧
    (t.letGo r).next = t.next ∧ (t.letGo r).vadSessions = t.vadSessions ∧
    (t.letGo r).log = t.log ++ [.finished r] := by
  unfold Table.letGo Table.mark
  dsimp only
  split_ifs
  · exact ⟨rfl, rfl, rfl, rfl, rfl, rfl, rfl, rfl⟩
  · exact ⟨rfl, rfl, rfl, rfl, rfl, rfl, rfl, rfl⟩

theorem letGo_running (t : Table σ) (r : Ref) : (t.letGo r).running =
    (if (t.objects r).vad then t.running else none) ∧
    (t.letGo r).vadRunning = if (t.objects r).vad then none else t.vadRunning := by
  unfold Table.letGo Table.mark
  dsimp only
  split_ifs
  · exact ⟨rfl, rfl⟩
  · exact ⟨rfl, rfl⟩

theorem Sound.letGo (h : Sound t []) (hr : t.Runs r) : Sound (t.letGo r) [r] ∧
    (t.letGo r).running ≠ some r ∧ (t.letGo r).vadRunning ≠ some r := by
  obtain ⟨hlane, hvadLane, hjobs, hobjects, hreleasing, hnext, -, -⟩ := letGo_frame t r
  obtain ⟨hrunning, hvadRunning⟩ := letGo_running t r
  have hrest := h.nodup_rest
  have hplaces : ((t.letGo r).running.toList ++ ((t.letGo r).vadRunning.toList ++ [r])).Perm
      (t.running.toList ++ (t.vadRunning.toList ++ [])) ∧
      (t.letGo r).running ≠ some r ∧ (t.letGo r).vadRunning ≠ some r ∧
      (∀ q, (t.letGo r).running = some q → t.running = some q) ∧
      ∀ q, (t.letGo r).vadRunning = some q → t.vadRunning = some q := by
    rw [hrunning, hvadRunning]
    rcases hr with hr | hr
    · have hvad := h.main r (List.mem_append_right _ (by simp [hr]))
      rw [hvad, hr]
      rw [hr] at hrest
      refine ⟨?_, by simp, ?_, by simp, fun q hq => hq⟩
      · simp only [Bool.false_eq_true, if_false, Option.toList_none, List.nil_append,
          List.append_nil, Option.toList_some]
        exact List.perm_append_comm
      · intro hq
        have hq' : t.vadRunning = some r := hq
        simp [hq'] at hrest
    · have hvad := h.vad r (List.mem_append_right _ (by simp [hr]))
      rw [hvad, hr]
      rw [hr] at hrest
      refine ⟨?_, ?_, by simp, fun q hq => hq, by simp⟩
      · simp
      · intro hq
        have hq' : t.running = some r := hq
        simp [hq'] at hrest
  obtain ⟨hperm, hne, hvadNe, hsub, hvadSub⟩ := hplaces
  have hperm' : ((t.letGo r).placed [r]).Perm (t.placed []) := by
    unfold Table.placed Table.waiting Table.refs
    rw [hlane, hvadLane]
    exact List.Perm.append_left _ hperm
  refine ⟨⟨?_, ?_, fun q => ?_, ?_, ?_, ?_, ?_, ?_, ?_⟩, hne, hvadNe⟩
  · rw [hjobs]
    exact h.nodup
  · rw [hperm'.nodup_iff]
    exact h.placed
  · rw [hperm'.mem_iff, hjobs]
    exact h.mem_placed q
  · rw [hjobs, hobjects]
    exact h.ids
  · rw [hjobs, hnext]
    exact h.old
  · rw [hjobs, hobjects]
    exact h.live
  · intro q hq
    rw [hobjects]
    apply h.main q
    unfold Table.refs at hq ⊢
    rw [hlane] at hq
    rw [List.mem_append, Option.mem_toList] at hq ⊢
    exact hq.imp_right (hsub q)
  · intro q hq
    rw [hobjects]
    apply h.vad q
    rw [hvadLane] at hq
    rw [List.mem_append, Option.mem_toList] at hq ⊢
    exact hq.imp_right (hvadSub q)
  · rw [hreleasing, hjobs, hobjects]
    exact h.pending

theorem Sound.takenJob (h : Sound t []) {rest : List Work} (hlane : t.lane = .job r :: rest)
    (hidle : t.running = none) : Sound { t with lane := rest, running := some r } [] := by
  have hrefs : t.refs = r :: rest.filterMap Work.ref? := by
    unfold Table.refs
    rw [hlane]
    rfl
  have hperm : (({ t with lane := rest, running := some r } : Table σ).placed []).Perm
      (t.placed []) := by
    unfold Table.placed Table.waiting
    rw [hrefs, hidle]
    unfold Table.refs
    simp only [Option.toList_some, Option.toList_none, List.nil_append, List.append_nil,
      List.cons_append, List.append_assoc]
    rw [← List.append_assoc]
    refine List.perm_middle.trans ?_
    simp
  refine ⟨h.nodup, ?_, fun q => ?_, h.ids, h.old, h.live, ?_, h.vad, h.pending⟩
  · rw [hperm.nodup_iff]
    exact h.placed
  · rw [hperm.mem_iff]
    exact h.mem_placed q
  · intro q hq
    apply h.main q
    unfold Table.refs at hq
    rw [hrefs]
    simp only [List.mem_append, Option.toList_some, List.mem_cons] at hq ⊢
    tauto

theorem Sound.takenVad (h : Sound t []) {rest : List Ref} (hlane : t.vadLane = r :: rest)
    (hidle : t.vadRunning = none) : Sound { t with vadLane := rest, vadRunning := some r } [] := by
  have hperm : (({ t with vadLane := rest, vadRunning := some r } : Table σ).placed []).Perm
      (t.placed []) := by
    unfold Table.placed Table.waiting Table.refs
    rw [hlane, hidle]
    have hmiddle : ((t.lane.filterMap Work.ref? ++ rest ++ t.running.toList) ++ r :: []).Perm
        (r :: ((t.lane.filterMap Work.ref? ++ rest ++ t.running.toList) ++ [])) :=
      List.perm_middle
    have hback : (t.lane.filterMap Work.ref? ++ r :: (rest ++ t.running.toList)).Perm
        (r :: (t.lane.filterMap Work.ref? ++ (rest ++ t.running.toList))) :=
      List.perm_middle
    simp only [Option.toList_some, Option.toList_none, List.append_nil, List.append_assoc,
      List.cons_append] at hmiddle hback ⊢
    exact hmiddle.trans hback.symm
  refine ⟨h.nodup, ?_, fun q => ?_, h.ids, h.old, h.live, h.main, ?_, h.pending⟩
  · rw [hperm.nodup_iff]
    exact h.placed
  · rw [hperm.mem_iff]
    exact h.mem_placed q
  · intro q hq
    apply h.vad q
    rw [hlane]
    simp only [List.mem_append, Option.toList_some, List.mem_cons] at hq ⊢
    tauto

theorem Admitted.live {header : Header} {job : Job} (h : Admitted t header job) :
    Live ((t.made header job).admitted t.next) := by
  have hobject := made_object t header job
  obtain ⟨payload, request, hread, hrequest, hvad⟩ := h.request
  unfold Table.admitted
  rw [hobject]
  refine ⟨⟨h.valid, h.same, h.terminal, rfl⟩, ?_, ⟨request, hrequest, hvad, ?_⟩, ?_⟩
  · exact h.cancelAcknowledged.trans h.cancelled.symm
  · exact (readSubmit_eq_ok hread).2.2
  · obtain ⟨backend, hbackend⟩ := Option.isSome_iff_exists.1 h.enabled
    exact ⟨backend, h.backend.trans hbackend⟩

theorem resetUnrun_frame (t : Table σ) (header : Header) :
    ∃ held, t.resetUnrun header = { t with vadSessions := held } := by
  unfold Table.resetUnrun
  split
  · exact resetNext_steady _ _ _
  · exact ⟨_, rfl⟩

theorem open_frame (t : Table σ) (runsVad : Bool) (classes : List JobClass) :
    (t.open runsVad classes).lane = t.lane ∧ (t.open runsVad classes).vadLane = t.vadLane ∧
    (t.open runsVad classes).jobs = t.jobs ∧ (t.open runsVad classes).running = t.running ∧
    (t.open runsVad classes).vadRunning = t.vadRunning ∧
    (t.open runsVad classes).releasing = t.releasing ∧
    (t.open runsVad classes).objects = t.objects ∧
    (t.open runsVad classes).vadSessions = t.vadSessions ∧
    (t.open runsVad classes).next = t.next + 1 := by
  unfold Table.open
  dsimp only
  split_ifs
  · exact ⟨rfl, rfl, rfl, rfl, rfl, rfl, rfl, rfl, rfl⟩
  · exact ⟨rfl, rfl, rfl, rfl, rfl, rfl, rfl, rfl, rfl⟩

theorem refs_congr (h : t'.lane = t.lane) : t'.refs = t.refs := by
  unfold Table.refs
  rw [h]

/-- **Every reaction keeps each live job in its place.** -/
theorem Sound.reaction (h : Sound t []) (hcalm : Calm t) (hreaction : Reaction t t') :
    Sound t' [] ∧ Calm t' := by
  cases hreaction with
  | note he =>
    exact ⟨h.congr rfl rfl rfl rfl rfl rfl le_rfl fun _ _ => rfl, hcalm.congr rfl rfl fun _ _ => rfl⟩
  | @unread header answers hsubmit hanswers =>
    obtain ⟨held, heq⟩ := resetUnrun_frame (t.noted header answers) header
    rw [heq]
    exact ⟨h.congr rfl rfl rfl rfl rfl rfl (Nat.le_succ _) fun _ _ => rfl,
      hcalm.congr rfl rfl fun _ _ => rfl⟩
  | @refused _ header job error hmade hended =>
    have hmadeSound := h.made header job
    have hremoved := hended.removed hmadeSound (hmade.ids h)
    have hrun : ∀ q, t.Runs q → q ≠ t.next := fun q hq => h.ne_next (h.job_of_runs hq)
    refine ⟨?_, hremoved.calm hmadeSound fun q hq _ => hcalm.made h header job q hq⟩
    exact hremoved.sound hmadeSound (fun hr => hrun _ (Or.inl hr) rfl)
      fun hr => hrun _ (Or.inr hr) rfl
  | @accepted _ header job hadmitted haccepted =>
    have hmadeSound := h.made header job
    refine ⟨haccepted.sound hmadeSound (fun hmem => h.ne_next hmem rfl) (Nat.lt_succ_self _)
      hadmitted.live fun q hq hid => ?_, haccepted.calm (hcalm.made h header job) ?_⟩
    · exact h.ne_next hq (hadmitted.toMade.ids h q hq hid)
    · rw [made_object]
      exact hadmitted.cancelled
  | @acknowledged _ r hr hc hack =>
    refine ⟨hack.sound h, hcalm.congr (refs_congr hack.lane) hack.vadLane fun q hq => ?_⟩
    have hqr : q ≠ r := fun heq => h.not_waiting_of_runs hr (heq ▸ hq)
    rw [hack.others q hqr]
  | @cancelled t₁ _ r error hr hack hended =>
    have hsound₁ := hack.sound h
    have hjob : r ∈ t₁.jobs := by
      rw [hack.jobs]
      exact h.job_of_waiting hr
    have hremoved := hended.removed hsound₁ fun q hq hid => hsound₁.ids q hq r hjob hid
    have hwaiting : t₁.waiting = t.waiting := by
      unfold Table.waiting
      rw [refs_congr hack.lane, hack.vadLane]
    refine ⟨hremoved.sound hsound₁ ?_ ?_, hremoved.calm hsound₁ fun q hq hqr => ?_⟩
    · rw [hack.running]
      exact h.not_running_of_waiting hr
    · rw [hack.vadRunning]
      exact h.not_vadRunning_of_waiting hr
    · rw [hwaiting] at hq
      rw [hack.others q hqr]
      exact hcalm q hq
  | @failed _ r error hr hended =>
    have hremoved := hended.removed h fun q hq hid => h.ids q hq r (h.job_of_waiting hr) hid
    exact ⟨hremoved.sound h (h.not_running_of_waiting hr) (h.not_vadRunning_of_waiting hr),
      hremoved.calm h fun q hq _ => hcalm q hq⟩
  | @pended s hs hlive =>
    refine ⟨⟨h.nodup, h.placed, h.mem_placed, h.ids, h.old, h.live, h.main, h.vad, fun s' hs' => ?_⟩,
      hcalm.congr rfl rfl fun _ _ => rfl⟩
    by_cases heq : s' = s
    · rw [heq]
      exact hlive
    · dsimp only at hs'
      rw [Function.update_of_ne heq] at hs'
      exact h.pending s' hs'
  | released hs hlive =>
    exact ⟨h.congr rfl rfl rfl rfl rfl rfl le_rfl fun _ _ => rfl, hcalm.congr rfl rfl fun _ _ => rfl⟩

/-- **So does every change.** -/
theorem Sound.change (h : Sound t []) (hcalm : Calm t) (hchange : Change t t') :
    Sound t' [] ∧ Calm t' := by
  cases hchange with
  | reacts hreaction => exact h.reaction hcalm hreaction
  | closes =>
    exact ⟨h.congr rfl rfl rfl rfl rfl rfl (Nat.le_succ _) fun _ _ => rfl,
      hcalm.congr rfl rfl fun _ _ => rfl⟩
  | numbered =>
    exact ⟨h.congr rfl rfl rfl rfl rfl rfl (Nat.le_succ _) fun _ _ => rfl,
      hcalm.congr rfl rfl fun _ _ => rfl⟩
  | queued f =>
    have hrefs : ({ t with lane := t.lane ++ [.frame f] } : Table σ).refs = t.refs := by
      unfold Table.refs
      rw [List.filterMap_append]
      exact List.append_nil _
    exact ⟨h.congr hrefs rfl rfl rfl rfl rfl le_rfl fun _ _ => rfl,
      hcalm.congr hrefs rfl fun _ _ => rfl⟩
  | @takenJob r rest hlane hidle =>
    refine ⟨h.takenJob hlane hidle, fun q hq => hcalm q ?_⟩
    unfold Table.waiting Table.refs at hq ⊢
    rw [hlane]
    rcases List.mem_append.1 hq with hq | hq
    · exact List.mem_append_left _ (List.mem_cons_of_mem _ hq)
    · exact List.mem_append_right _ hq
  | @takenFrame f rest hlane =>
    have hrefs : ({ t with lane := rest } : Table σ).refs = t.refs := by
      unfold Table.refs
      rw [hlane]
      rfl
    exact ⟨h.congr hrefs rfl rfl rfl rfl rfl le_rfl fun _ _ => rfl,
      hcalm.congr hrefs rfl fun _ _ => rfl⟩
  | @closed f rest hlane hjobs hbackend =>
    have hrefs : ∀ t' : Table σ, t'.lane = rest → t'.refs = t.refs := by
      intro t' ht'
      unfold Table.refs
      rw [hlane, ht']
      rfl
    exact ⟨h.congr (hrefs _ rfl) rfl rfl rfl rfl rfl le_rfl fun _ _ => rfl,
      hcalm.congr (hrefs _ rfl) rfl fun _ _ => rfl⟩
  | @takenVad r rest hlane hidle =>
    refine ⟨h.takenVad hlane hidle, fun q hq => hcalm q ?_⟩
    unfold Table.waiting Table.refs at hq ⊢
    rw [hlane]
    rcases List.mem_append.1 hq with hq | hq
    · exact List.mem_append_left _ hq
    · exact List.mem_append_right _ (List.mem_cons_of_mem _ hq)
  | opened runsVad classes =>
    obtain ⟨hlane, hvadLane, hjobs, hrunning, hvadRunning, hreleasing, hobjects, -, hnext⟩ :=
      open_frame t runsVad classes
    refine ⟨h.congr (refs_congr hlane) hvadLane hjobs hrunning hvadRunning hreleasing
      (hnext ▸ Nat.le_succ _) fun q _ => by rw [hobjects], ?_⟩
    exact hcalm.congr (refs_congr hlane) hvadLane fun q _ => by rw [hobjects]
  | started hr hbackend hgiven =>
    exact ⟨h.congr rfl rfl rfl rfl rfl rfl le_rfl fun _ _ => rfl, hcalm.congr rfl rfl fun _ _ => rfl⟩
  | @failedRun _ r error hr hended =>
    obtain ⟨hsound₁, hrunning, hvadRunning⟩ := h.letGo hr
    obtain ⟨hlane, hvadLane, hjobs, hobjects, -⟩ := letGo_frame t r
    have hjob : r ∈ (t.letGo r).jobs := by
      rw [hjobs]
      exact h.job_of_runs hr
    have hremoved := hended.removed hsound₁ fun q hq hid => hsound₁.ids q hq r hjob hid
    have hsound := hremoved.sound hsound₁ hrunning hvadRunning
    rw [List.erase_cons_head] at hsound
    refine ⟨hsound, hremoved.calm hsound₁ fun q hq _ => ?_⟩
    unfold Table.waiting at hq
    rw [refs_congr hlane, hvadLane] at hq
    rw [hobjects]
    exact hcalm q hq
  | @completedRun _ r rendered state hr hcompleted =>
    obtain ⟨hsound₁, hrunning, hvadRunning⟩ := h.letGo hr
    obtain ⟨hlane, hvadLane, hjobs, hobjects, -⟩ := letGo_frame t r
    have hjob : r ∈ (t.letGo r).jobs := by
      rw [hjobs]
      exact h.job_of_runs hr
    have hwaiting : (t.letGo r).waiting = t.waiting := by
      unfold Table.waiting
      rw [refs_congr hlane, hvadLane]
    have hremoved := hcompleted.removed hsound₁
      (by rw [hwaiting]; exact h.not_waiting_of_runs hr)
      fun q hq hid => hsound₁.ids q hq r hjob hid
    have hsound := hremoved.sound hsound₁ hrunning hvadRunning
    rw [List.erase_cons_head] at hsound
    refine ⟨hsound, hremoved.calm hsound₁ fun q hq _ => ?_⟩
    rw [hwaiting] at hq
    rw [hobjects]
    exact hcalm q hq

/-! ## The log goes on -/

/-- The end of a job adds its messages, and at most the answer to the
release of its session. -/
theorem Dropped.log {held : Session → Option (VadSession σ)} {sent : List (Entry σ)}
    (h : Dropped t t' r held sent) : ∃ answers, t'.log = t.log ++ (sent ++ answers) ∧
      ∀ e ∈ answers, e = .sent (.sessionReleased (t.objects r).session) := by
  by_cases hs : SettlesWithout t r
  · exact ⟨_, (h.settled hs).2.2, fun e he => List.mem_singleton.1 he⟩
  · refine ⟨[], ?_, fun e he => by cases he⟩
    rw [(h.unsettled hs).2.2, List.append_nil]

/-- What a message makes of the log. -/
def Entry.IsReaction : Entry σ → Prop
  | .sent _ | .arrived _ _ | .pending _ => True
  | _ => False

theorem Ended.log {left : Table σ} {error : ErrorObject} (h : Ended t left t' r error) :
    ∃ more, t'.log = t.log ++ more ∧ (∀ e ∈ more, e.IsReaction) ∧
      .sent (.event r (t.objects r).identity (.failed error)) ∈ more := by
  obtain ⟨answers, hlog, hanswers⟩ := h.toDropped.log
  refine ⟨_, hlog, fun e he => ?_, by simp⟩
  simp only [List.mem_append, List.mem_cons, List.not_mem_nil, or_false] at he
  rcases he with (rfl | rfl) | he
  · trivial
  · trivial
  · rw [hanswers e he]
    trivial

theorem Reaction.log (hreaction : Reaction t t') :
    ∃ more, t'.log = t.log ++ more ∧ ∀ e ∈ more, e.IsReaction := by
  cases hreaction with
  | @note e he =>
    obtain ⟨messageId, error, rfl⟩ := he
    refine ⟨_, rfl, fun e he => ?_⟩
    rw [List.mem_singleton.1 he]
    trivial
  | @unread header answers hsubmit hanswers =>
    obtain ⟨held, heq⟩ := resetUnrun_frame (t.noted header answers) header
    rw [heq]
    refine ⟨.arrived t.next header :: answers, List.append_assoc _ _ _, fun e he => ?_⟩
    rcases List.mem_cons.1 he with rfl | he
    · trivial
    · obtain ⟨messageId, error, rfl⟩ := hanswers e he
      trivial
  | @refused _ header job error hmade hended =>
    obtain ⟨more, hlog, hmore, -⟩ := hended.log
    refine ⟨.arrived t.next header :: more, hlog.trans (List.append_assoc _ _ _), fun e he => ?_⟩
    rcases List.mem_cons.1 he with rfl | he
    · trivial
    · exact hmore e he
  | @accepted _ header job hadmitted haccepted =>
    refine ⟨_, haccepted.log.trans (List.append_assoc _ _ _), fun e he => ?_⟩
    rcases List.mem_cons.1 he with rfl | he
    · trivial
    · rw [List.mem_singleton.1 he]
      trivial
  | acknowledged hr hc hack =>
    refine ⟨_, hack.log, fun e he => ?_⟩
    rw [List.mem_singleton.1 he]
    trivial
  | cancelled hr hack hended =>
    obtain ⟨more, hlog, hmore, -⟩ := hended.log
    rw [hack.log, List.append_assoc] at hlog
    refine ⟨_, hlog, fun e he => ?_⟩
    rcases List.mem_cons.1 he with rfl | he
    · trivial
    · exact hmore e he
  | failed hr hended =>
    obtain ⟨more, hlog, hmore, -⟩ := hended.log
    exact ⟨more, hlog, hmore⟩
  | pended hs hlive =>
    refine ⟨_, rfl, fun e he => ?_⟩
    rw [List.mem_singleton.1 he]
    trivial
  | released hs hlive =>
    refine ⟨_, rfl, fun e he => ?_⟩
    rcases List.mem_cons.1 he with rfl | he
    · trivial
    · rw [List.mem_singleton.1 he]
      trivial

end Sidecar

end Tensorplate
