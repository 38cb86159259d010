import Tensorplate.Sidecar.Jobs

/-!
# Where a live job is

Each live job is in one place: in one of the lanes, or on the thread of
one. A job that waits is not cancelled, and a session is being released
only while a job of it is live.
-/

namespace Tensorplate

namespace Sidecar

open Lib

variable {σ : Type} {t t' : Table σ} {r q : Ref} {loose : List Ref}

/-- The jobs that wait in the main lane. -/
def Table.refs (t : Table σ) : List Ref := t.lane.filterMap Work.ref?

/-- The frame of a work item. -/
def Work.frame? : Work → Option Frame
  | .job _ => none
  | .frame f => some f

/-- The requests that wait. -/
def Table.frames (t : Table σ) : List Frame := t.lane.filterMap Work.frame?

/-- The jobs that wait. -/
def Table.waiting (t : Table σ) : List Ref := t.refs ++ t.vadLane

/-- The jobs that have a place, with those on their way out of one. -/
def Table.placed (t : Table σ) (loose : List Ref) : List Ref :=
  t.waiting ++ (t.running.toList ++ (t.vadRunning.toList ++ loose))

/-- **A live job**: its messages are in step with it, and it has what it
runs with. -/
structure Live (job : Job) : Prop extends Open job where
  acknowledged : job.sequence.cancelAcknowledged = job.cancelled
  request : ∃ request, job.request = some request ∧
    job.vad = decide (request.jobClass = .vadFrames) ∧
    (request.jobClass = .vadFrames → request.utteranceId ≠ 0)
  backend : ∃ backend, job.backend = some backend

theorem Live.of_core {a b : Job} (h : Live a) (hcore : b.core = a.core) : Live b := by
  obtain ⟨-, hs, hr, hb, hc, hv⟩ := core_eq hcore
  refine ⟨h.toOpen.of_core hcore, ?_, ?_, ?_⟩
  · rw [hs, hc]
    exact h.acknowledged
  · rw [hr, hv]
    exact h.request
  · rw [hb]
    exact h.backend

theorem Live.acknowledge {job : Job} (h : Live job) : Live job.acknowledged :=
  ⟨⟨h.valid, h.same, h.terminal, rfl⟩, rfl, h.request, h.backend⟩

/-- **Each live job has one place**, and what is said about it. -/
structure Sound (t : Table σ) (loose : List Ref) : Prop where
  nodup : t.jobs.Nodup
  placed : (t.placed loose).Nodup
  mem_placed : ∀ q, q ∈ t.placed loose ↔ q ∈ t.jobs
  ids : ∀ q ∈ t.jobs, ∀ q' ∈ t.jobs,
    (t.objects q).identity.jobId = (t.objects q').identity.jobId → q = q'
  old : ∀ q ∈ t.jobs, q < t.next
  live : ∀ q ∈ t.jobs, Live (t.objects q)
  main : ∀ q ∈ t.refs ++ t.running.toList, (t.objects q).vad = false
  vad : ∀ q ∈ t.vadLane ++ t.vadRunning.toList, (t.objects q).vad = true
  pending : ∀ s, t.releasing s = true → ∃ q ∈ t.jobs, (t.objects q).session = s

/-- A job that waits is not cancelled. -/
def Calm (t : Table σ) : Prop := ∀ q ∈ t.waiting, (t.objects q).cancelled = false

theorem mem_placed_iff : q ∈ t.placed loose ↔
    q ∈ t.waiting ∨ t.running = some q ∨ t.vadRunning = some q ∨ q ∈ loose := by
  unfold Table.placed
  simp only [List.mem_append, Option.mem_toList]

namespace Sound

variable (h : Sound t loose)

include h

theorem job_of_waiting (hq : q ∈ t.waiting) : q ∈ t.jobs :=
  (h.mem_placed q).1 (mem_placed_iff.2 (Or.inl hq))

theorem job_of_running (hq : t.running = some q) : q ∈ t.jobs :=
  (h.mem_placed q).1 (mem_placed_iff.2 (Or.inr (Or.inl hq)))

theorem job_of_vadRunning (hq : t.vadRunning = some q) : q ∈ t.jobs :=
  (h.mem_placed q).1 (mem_placed_iff.2 (Or.inr (Or.inr (Or.inl hq))))

theorem not_running_of_waiting (hq : q ∈ t.waiting) : t.running ≠ some q := by
  intro hrun
  have hnodup := h.placed
  unfold Table.placed at hnodup
  exact (List.nodup_append.1 hnodup).2.2 q hq q (by simp [hrun]) rfl

theorem not_vadRunning_of_waiting (hq : q ∈ t.waiting) : t.vadRunning ≠ some q := by
  intro hrun
  have hnodup := h.placed
  unfold Table.placed at hnodup
  exact (List.nodup_append.1 hnodup).2.2 q hq q (by simp [hrun]) rfl

/-- The sound table without its first place. -/
theorem nodup_rest : (t.running.toList ++ (t.vadRunning.toList ++ loose)).Nodup := by
  have hnodup := h.placed
  unfold Table.placed at hnodup
  exact (List.nodup_append.1 hnodup).2.1

theorem nodup_waiting : t.waiting.Nodup := by
  have hnodup := h.placed
  unfold Table.placed at hnodup
  exact (List.nodup_append.1 hnodup).1

end Sound

/-! ## A job leaves -/

theorem refs_eraseP (lane : List Work) (r : Ref) :
    (lane.eraseP fun work => work.ref? = some r).filterMap Work.ref? =
      (lane.filterMap Work.ref?).erase r := by
  induction lane with
  | nil => rfl
  | cons work rest ih =>
    rw [List.eraseP_cons, List.filterMap_cons]
    rcases hwork : work.ref? with _ | q
    · simp only [reduceCtorEq, decide_false, cond_false]
      rw [List.filterMap_cons_none hwork]
      exact ih
    · by_cases hq : q = r
      · subst hq
        simp
      · have hne : ¬ some q = some r := fun heq => hq (Option.some.inj heq)
        simp only [hne, decide_false, cond_false]
        rw [List.filterMap_cons_some hwork, List.erase_cons_tail (by simpa using hq), ih]

theorem frames_eraseP (lane : List Work) (r : Ref) :
    (lane.eraseP fun work => work.ref? = some r).filterMap Work.frame? =
      lane.filterMap Work.frame? := by
  induction lane with
  | nil => rfl
  | cons work rest ih =>
    rw [List.eraseP_cons]
    cases work with
    | frame f =>
      have hne : ¬ (Work.frame f).ref? = some r := by
        intro heq
        cases heq
      simp only [hne, decide_false, cond_false]
      rw [List.filterMap_cons, List.filterMap_cons, ih]
    | job q =>
      by_cases hq : (Work.job q).ref? = some r
      · simp only [hq, decide_true, cond_true]
        rfl
      · simp only [hq, decide_false, cond_false]
        exact ih

/-- **What is left without a job.** -/
structure Removed (t t' : Table σ) (r : Ref) : Prop extends Steady t t' where
  refs : t'.refs = t.refs.erase r
  frames : t'.frames = t.frames
  vadLane : t'.vadLane = t.vadLane.erase r
  jobs : t'.jobs = t.jobs.erase r
  others : ∀ q, q ≠ r → (t'.objects q).core = (t.objects q).core
  releasing : ∀ s, t'.releasing s = true → t.releasing s = true ∧
    (s = (t.objects r).session → ∃ q ∈ t'.jobs, (t.objects q).session = s)

theorem without_eq_erase (hnodup : t.jobs.Nodup) (hids : ∀ q ∈ t.jobs,
    (t.objects q).identity.jobId = (t.objects r).identity.jobId → q = r) :
    t.without r = t.jobs.erase r := by
  rw [hnodup.erase_eq_filter]
  unfold Table.without
  apply List.filter_congr
  intro q hq
  by_cases hqr : q = r
  · simp [hqr]
  · have hne : (t.objects q).identity.jobId ≠ (t.objects r).identity.jobId :=
      fun hid => hqr (hids q hq hid)
    simp [hqr, hne]

theorem Dropped.releasing_of {held : Session → Option (VadSession σ)} {sent : List (Entry σ)}
    (h : Dropped t t' r held sent) (s : Session) (hs : t'.releasing s = true) :
    t.releasing s = true ∧
      (s = (t.objects r).session → ∃ q ∈ t'.jobs, (t.objects q).session = s) := by
  by_cases hsettles : SettlesWithout t r
  · rw [(h.settled hsettles).1] at hs
    dsimp only at hs
    split_ifs at hs with hsession
    exact ⟨hs, fun heq => absurd heq hsession⟩
  · rw [(h.unsettled hsettles).1] at hs
    refine ⟨hs, ?_⟩
    rintro rfl
    unfold SettlesWithout at hsettles
    push Not at hsettles
    rw [h.jobs]
    exact hsettles hs

/-- The end of a job takes it out of its lane. -/
theorem Ended.removed {error : ErrorObject} (h : Ended t (t.leaveLane r) t' r error)
    (hsound : Sound t loose) (hids : ∀ q ∈ t.jobs,
      (t.objects q).identity.jobId = (t.objects r).identity.jobId → q = r) : Removed t t' r := by
  have hleft := leaveLane_spec t r
  refine ⟨h.toSteady, ?_, ?_, ?_, ?_, fun q hq => ?_, h.releasing_of⟩
  · unfold Table.refs
    rw [h.lane, hleft.lane]
    split_ifs with hvad
    · rw [List.erase_of_not_mem]
      intro hmem
      rw [hsound.main r (List.mem_append_left _ hmem)] at hvad
      cases hvad
    · exact refs_eraseP t.lane r
  · unfold Table.frames
    rw [h.lane, hleft.lane]
    split_ifs
    · rfl
    · exact frames_eraseP t.lane r
  · rw [h.vadLane, hleft.vadLane]
    split_ifs with hvad
    · rfl
    · rw [List.erase_of_not_mem]
      intro hmem
      exact hvad (hsound.vad r (List.mem_append_left _ hmem))
  · rw [h.jobs]
    exact without_eq_erase hsound.nodup hids
  · rw [h.others q hq]
    exact hleft.core q

/-- So does its completion, where it is on its way out already. -/
theorem Completed.removed {rendered : Rendered} {state : Option σ}
    (h : Completed t t' r rendered state) (hsound : Sound t loose) (hr : r ∉ t.waiting)
    (hids : ∀ q ∈ t.jobs, (t.objects q).identity.jobId = (t.objects r).identity.jobId → q = r) :
    Removed t t' r := by
  unfold Table.waiting at hr
  rw [List.mem_append, not_or] at hr
  refine ⟨h.toSteady, ?_, ?_, ?_, ?_, fun q hq => ?_, h.releasing_of⟩
  · unfold Table.refs
    rw [h.lane]
    exact (List.erase_of_not_mem hr.1).symm
  · unfold Table.frames
    rw [h.lane]
  · rw [h.vadLane, List.erase_of_not_mem hr.2]
  · rw [h.jobs]
    exact without_eq_erase hsound.nodup hids
  · rw [h.others q hq]

/-- **The rest stays sound.** -/
theorem Removed.sound (h : Removed t t' r) (hsound : Sound t loose) (hrunning : t.running ≠ some r)
    (hvadRunning : t.vadRunning ≠ some r) : Sound t' (loose.erase r) := by
  have hwaiting : t'.waiting = t.refs.erase r ++ t.vadLane.erase r := by
    unfold Table.waiting
    rw [h.refs, h.vadLane]
  have hsub : (t'.placed (loose.erase r)).Sublist (t.placed loose) := by
    unfold Table.placed
    rw [hwaiting, h.running, h.vadRunning]
    refine List.Sublist.append ?_ (List.Sublist.append (List.Sublist.refl _)
      (List.Sublist.append (List.Sublist.refl _) List.erase_sublist))
    exact List.Sublist.append List.erase_sublist List.erase_sublist
  have hplaced := hsound.placed
  have hrefs : t.refs.Nodup := (List.nodup_append.1 hsound.nodup_waiting).1
  have hlane : t.vadLane.Nodup := (List.nodup_append.1 hsound.nodup_waiting).2.1
  have hloose : loose.Nodup :=
    (List.nodup_append.1 (List.nodup_append.1 hsound.nodup_rest).2.1).2.1
  have hmem : ∀ q, q ∈ t'.placed (loose.erase r) ↔ q ≠ r ∧ q ∈ t.placed loose := by
    intro q
    rw [mem_placed_iff, mem_placed_iff, hwaiting, h.running, h.vadRunning]
    unfold Table.waiting
    rw [List.mem_append, List.mem_append, hrefs.mem_erase_iff, hlane.mem_erase_iff,
      hloose.mem_erase_iff]
    constructor
    · rintro ((⟨hq, hm⟩ | ⟨hq, hm⟩) | hm | hm | ⟨hq, hm⟩)
      · exact ⟨hq, Or.inl (Or.inl hm)⟩
      · exact ⟨hq, Or.inl (Or.inr hm)⟩
      · exact ⟨fun hq => hrunning (by rw [hm, hq]), Or.inr (Or.inl hm)⟩
      · exact ⟨fun hq => hvadRunning (by rw [hm, hq]), Or.inr (Or.inr (Or.inl hm))⟩
      · exact ⟨hq, Or.inr (Or.inr (Or.inr hm))⟩
    · rintro ⟨hq, (hm | hm) | hm | hm | hm⟩
      · exact Or.inl (Or.inl ⟨hq, hm⟩)
      · exact Or.inl (Or.inr ⟨hq, hm⟩)
      · exact Or.inr (Or.inl hm)
      · exact Or.inr (Or.inr (Or.inl hm))
      · exact Or.inr (Or.inr (Or.inr ⟨hq, hm⟩))
  have hjobs : ∀ q, q ∈ t'.jobs ↔ q ≠ r ∧ q ∈ t.jobs := by
    intro q
    rw [h.jobs, hsound.nodup.mem_erase_iff]
  refine ⟨?_, hplaced.sublist hsub, fun q => ?_, ?_, ?_, ?_, ?_, ?_, ?_⟩
  · rw [h.jobs]
    exact hsound.nodup.erase r
  · rw [hmem, hjobs, hsound.mem_placed]
  · intro q hq q' hq' hid
    rw [hjobs] at hq hq'
    rw [(core_eq (h.others q hq.1)).1, (core_eq (h.others q' hq'.1)).1] at hid
    exact hsound.ids q hq.2 q' hq'.2 hid
  · intro q hq
    rw [hjobs] at hq
    rw [h.next]
    exact hsound.old q hq.2
  · intro q hq
    rw [hjobs] at hq
    exact (hsound.live q hq.2).of_core (h.others q hq.1)
  · intro q hq
    have hold : q ≠ r ∧ q ∈ t.refs ++ t.running.toList := by
      rw [h.refs, h.running, List.mem_append, hrefs.mem_erase_iff] at hq
      rcases hq with ⟨hne, hq⟩ | hq
      · exact ⟨hne, List.mem_append_left _ hq⟩
      · refine ⟨fun hqr => hrunning ?_, List.mem_append_right _ hq⟩
        rw [← hqr]
        exact Option.mem_toList.1 hq
    rw [(core_eq (h.others q hold.1)).2.2.2.2.2]
    exact hsound.main q hold.2
  · intro q hq
    have hold : q ≠ r ∧ q ∈ t.vadLane ++ t.vadRunning.toList := by
      rw [h.vadLane, h.vadRunning, List.mem_append, hlane.mem_erase_iff] at hq
      rcases hq with ⟨hne, hq⟩ | hq
      · exact ⟨hne, List.mem_append_left _ hq⟩
      · refine ⟨fun hqr => hvadRunning ?_, List.mem_append_right _ hq⟩
        rw [← hqr]
        exact Option.mem_toList.1 hq
    rw [(core_eq (h.others q hold.1)).2.2.2.2.2]
    exact hsound.vad q hold.2
  · intro s hs
    obtain ⟨hold, hself⟩ := h.releasing s hs
    obtain ⟨q, hq, hqs⟩ := hsound.pending s hold
    by_cases hqr : q = r
    · subst hqr
      obtain ⟨q', hq', hs'⟩ := hself hqs.symm
      refine ⟨q', hq', ?_⟩
      rw [core_session (h.others q' ((hjobs q').1 hq').1), hs']
    · refine ⟨q, (hjobs q).2 ⟨hqr, hq⟩, ?_⟩
      rw [core_session (h.others q hqr), hqs]

theorem Removed.calm (h : Removed t t' r) (hsound : Sound t loose)
    (hcalm : ∀ q ∈ t.waiting, q ≠ r → (t.objects q).cancelled = false) : Calm t' := by
  intro q hq
  have hold : q ≠ r ∧ q ∈ t.waiting := by
    unfold Table.waiting at hq ⊢
    rw [h.refs, h.vadLane, List.mem_append,
      (List.nodup_append.1 hsound.nodup_waiting).1.mem_erase_iff,
      (List.nodup_append.1 hsound.nodup_waiting).2.1.mem_erase_iff] at hq
    rw [List.mem_append]
    tauto
  rw [(core_eq (h.others q hold.1)).2.2.2.2.1]
  exact hcalm q hold.2 hold.1

end Sidecar

end Tensorplate
