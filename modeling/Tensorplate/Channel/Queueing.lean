import Tensorplate.Channel.Calls
import Tensorplate.Channel.Outbox

/-!
# The calls and the queue

Every call keeps the queue exact: it adds a record and its frame at once,
or it adds neither.
-/

namespace Tensorplate

namespace Channel

open Lib

section

variable {c : JobChannel} {k : ℕ} {job : Job}

/-- A frame is queued for a record that stands and has none. -/
theorem Exact.queued {owner : QueuedFor} {key : ℕ} (h : Exact c)
    (ho : Owned c ⟨owner, key, c.connection⟩)
    (hnew : ∀ f ∈ c.outbox, f.owner = owner → f.key ≠ key) : Exact (c.queueLocked owner key) :=
  { h with
    job := fun hj => (h.job hj).mono le_rfl
    owned := fun f hf => by
      rcases List.mem_append.1 hf with hf | hf
      · exact h.owned f hf
      · rw [List.mem_singleton.1 hf]
        exact ho
    once := by
      show ((c.outbox ++ [_]).map QueuedFrame.record).Nodup
      rw [List.map_append, List.nodup_append]
      refine ⟨h.once, by simp, fun r hr r' hr' heq => ?_⟩
      obtain ⟨f, hf, rfl⟩ := List.mem_map.1 hr
      rw [List.map_singleton, List.mem_singleton] at hr'
      rw [hr', QueuedFrame.record, QueuedFrame.record, Prod.mk.injEq] at heq
      exact hnew f hf heq.1 heq.2
    current := fun f hf => by
      rcases List.mem_append.1 hf with hf | hf
      · exact h.current f hf
      · rw [List.mem_singleton.1 hf]
        rfl }

/-- A fresh message id is no other's. -/
theorem Exact.fresh (h : Exact c) (j : ℕ) : (messageId c.messages, j) ∉ c.messageJobs := by
  intro hmem
  obtain ⟨n, hn, heq⟩ := h.drawn _ hmem
  have := messageId_injective heq
  omega

/-- A job named by a fresh id, beside those there are. -/
theorem Exact.names_fresh (h : Exact c) (j : ℕ) :
    ((c.messageJobs ++ [(messageId c.messages, j)]).map Prod.fst).Nodup := by
  rw [List.map_append, List.nodup_append]
  refine ⟨h.names, by simp, fun id hid id' hid' heq => ?_⟩
  obtain ⟨⟨_, j'⟩, hm, rfl⟩ := List.mem_map.1 hid
  rw [List.map_singleton, List.mem_singleton] at hid'
  rw [hid'] at heq
  dsimp only at heq
  rw [heq] at hm
  exact h.fresh j' hm

theorem Exact.drawn_fresh (h : Exact c) (j : ℕ) :
    ∀ m ∈ c.messageJobs ++ [(messageId c.messages, j)], ∃ n < c.messages + 1, m.1 = messageId n := by
  intro m hm
  rcases List.mem_append.1 hm with hm | hm
  · obtain ⟨n, hn, heq⟩ := h.drawn m hm
    exact ⟨n, by omega, heq⟩
  · rw [List.mem_singleton.1 hm]
    exact ⟨c.messages, by omega, rfl⟩

/-! ## A job is submitted -/

theorem jobs_withJob (s : SubmittedJob) (a : ℕ) : (c.withJob s).jobs[a]? =
    if s.identity.jobId = a then some (c.newJob s) else c.jobs[a]? :=
  Table.getElem?_insert

theorem Exact.withJob {s : SubmittedJob} (h : Exact c) (hp : c.phase = .admitting)
    (he : c.ended = false) (hnone : c.jobs[s.identity.jobId]? = none)
    (hfew : c.jobs.size < kMaxOpenJobs) :
    Exact { c.withJob s with serials := c.serials + 1 } where
  job := fun {a job'} ha => by
    have ha' : (c.withJob s).jobs[a]? = some job' := ha
    rw [jobs_withJob] at ha'
    split_ifs at ha' with heq
    · cases ha'
      exact ⟨heq, s.identity_valid, rfl, rfl, Nat.lt_succ_self _⟩
    · exact (h.job ha').mono (Nat.le_succ _)
  serials := fun {a b job₁ job₂} ha hb heq => by
    have ha' : (c.withJob s).jobs[a]? = some job₁ := ha
    have hb' : (c.withJob s).jobs[b]? = some job₂ := hb
    rw [jobs_withJob] at ha' hb'
    -- a job that stood has a smaller serial than the new one
    split_ifs at ha' hb' with h₁ h₂ h₂
    · exact h₁.symm.trans h₂
    · cases ha'
      have : job₂.serial < c.serials := (h.job hb').numbered
      have : c.serials = job₂.serial := heq
      omega
    · cases hb'
      have : job₁.serial < c.serials := (h.job ha').numbered
      have : job₁.serial = c.serials := heq
      omega
    · exact h.serials ha' hb' heq
  ended := fun hended => by
    rw [show c.ended = true from hended] at he
    cases he
  quiet := fun hq => by
    have hq' : c.phase = .idle ∨ c.phase = .stopped := hq
    rw [hp] at hq'
    rcases hq' with hq' | hq' <;> cases hq'
  owned := fun f hf => by
    have ho := h.owned f hf
    unfold Owned at ho ⊢
    have hstay : ∀ job', c.jobs[f.key]? = some job' → (c.withJob s).jobs[f.key]? = some job' := by
      intro job' hj'
      rw [jobs_withJob, if_neg]
      · exact hj'
      · intro heq
        rw [← heq, hnone] at hj'
        cases hj'
    cases hw : f.owner with
    | submit =>
      rw [hw] at ho
      obtain ⟨job', hj'⟩ := ho
      exact ⟨job', hstay job' hj'⟩
    | cancel =>
      rw [hw] at ho
      obtain ⟨job', hj', hne⟩ := ho
      exact ⟨job', hstay job' hj', hne⟩
    | release | exchange | probe =>
      rw [hw] at ho
      exact ho
  once := h.once
  current := h.current
  fewJobs := by
    have hsize : (c.jobs.insert s.identity.jobId (c.newJob s)).size ≤ c.jobs.size + 1 :=
      Std.TreeMap.size_insert_le
    show (c.jobs.insert s.identity.jobId (c.newJob s)).size ≤ kMaxOpenJobs
    omega
  fewReleases := h.fewReleases
  named := fun id j => by
    show (id, j) ∈ c.messageJobs ++ [_] ↔ ∃ job', (c.withJob s).jobs[j]? = some job' ∧ _
    rw [List.mem_append, List.mem_singleton, Prod.mk.injEq, h.named, jobs_withJob]
    constructor
    · rintro (⟨job', hj', hn⟩ | ⟨hid, rfl⟩)
      · refine ⟨job', ?_, hn⟩
        rw [if_neg]
        · exact hj'
        · rintro rfl
          rw [hnone] at hj'
          cases hj'
      · exact ⟨c.newJob s, if_pos rfl, .inl hid⟩
    · rintro ⟨job', hj', hn⟩
      split_ifs at hj' with heq
      · cases hj'
        rcases hn with hn | hn
        · exact .inr ⟨hn, heq.symm⟩
        · exact absurd hn.1 hn.2
      · exact .inl ⟨job', hj', hn⟩
  names := h.names_fresh _
  drawn := h.drawn_fresh _
  found := h.found

/-! ## A job is cancelled -/

theorem jobs_withCancel (a : ℕ) : (c.withCancel k job).jobs[a]? =
    if k = a then some (c.cancelledJob job) else c.jobs[a]? :=
  Table.getElem?_insert

theorem Exact.withCancel (h : Exact c) (hj : c.jobs[k]? = some job)
    (hc : job.cancelMessageId = "") :
    Exact (c.withCancel k job) where
  toSound := by
    have hs : Sound { c with jobs := c.jobs.insert k (c.cancelledJob job) } := by
      refine h.toSound.renewed fun {a job'} ha => ?_
      rw [Table.getElem?_insert] at ha
      split_ifs at ha with heq
      · cases ha
        subst heq
        obtain ⟨hid, hv, hjudged, hr, hn⟩ := (h.job hj).noted.sound
        exact ⟨job, hj, rfl, ⟨hid, hv, hjudged, hr, hn⟩, fun ht' => ht'⟩
      · exact ⟨job', ha, rfl, h.job ha, fun ht' => ht'⟩
    exact hs.same rfl rfl rfl rfl rfl rfl rfl le_rfl
  owned := fun f hf => by
    have ho := h.owned f hf
    unfold Owned at ho ⊢
    cases hw : f.owner with
    | submit =>
      rw [hw] at ho
      obtain ⟨job', hj'⟩ := ho
      show ∃ job'', (c.withCancel k job).jobs[f.key]? = some job''
      rw [jobs_withCancel]
      split_ifs
      · exact ⟨_, rfl⟩
      · exact ⟨job', hj'⟩
    | cancel =>
      rw [hw] at ho
      obtain ⟨job', hj', hne⟩ := ho
      show ∃ job'', (c.withCancel k job).jobs[f.key]? = some job'' ∧ job''.cancelMessageId ≠ ""
      rw [jobs_withCancel]
      split_ifs
      · exact ⟨_, rfl, messageId_ne_empty _⟩
      · exact ⟨job', hj', hne⟩
    | release | exchange | probe =>
      rw [hw] at ho
      exact ho
  once := h.once
  current := h.current
  fewJobs := by
    show (c.jobs.insert k (c.cancelledJob job)).size ≤ _
    rw [Std.TreeMap.size_insert, if_pos]
    · exact h.fewJobs
    · exact Std.TreeMap.contains_iff_mem.2 (Table.mem_iff_getElem?.2 ⟨job, hj⟩)
  fewReleases := h.fewReleases
  named := fun id j => by
    show (id, j) ∈ c.messageJobs ++ [_] ↔ ∃ job', (c.withCancel k job).jobs[j]? = some job' ∧ _
    rw [List.mem_append, List.mem_singleton, Prod.mk.injEq, h.named, jobs_withCancel]
    constructor
    · rintro (⟨job', hj', hn⟩ | ⟨hid, rfl⟩)
      · by_cases heq : k = j
        · subst heq
          rw [hj] at hj'
          cases hj'
          refine ⟨_, if_pos rfl, ?_⟩
          rcases hn with hn | hn
          · exact .inl hn
          · exact absurd (hn.1.trans hc) hn.2
        · exact ⟨job', by rw [if_neg heq]; exact hj', hn⟩
      · refine ⟨_, if_pos rfl, .inr ⟨hid, ?_⟩⟩
        rw [hid]
        exact messageId_ne_empty _
    · rintro ⟨job', hj', hn⟩
      split_ifs at hj' with heq
      · cases hj'
        subst heq
        rcases hn with hn | hn
        · exact .inl ⟨job, hj, .inl hn⟩
        · exact .inr ⟨hn.1, rfl⟩
      · exact .inl ⟨job', hj', hn⟩
  names := h.names_fresh k
  drawn := h.drawn_fresh k
  found := h.found

/-! ## A session is released -/

theorem renewed_noteSession (hs : JobSound c k job) (key : ℕ) :
    Renewed c k job (JobChannel.noteSession key job) := by
  unfold JobChannel.noteSession
  split_ifs
  · exact hs.noted
  · exact ⟨rfl, rfl, rfl, hs, fun ht => ht⟩

theorem jobs_withRelease (key generation a : ℕ) : (c.withRelease key generation).jobs[a]? =
    (c.jobs[a]?).map (JobChannel.noteSession key) :=
  Table.getElem?_map

theorem releasing_withRelease (key generation a : ℕ) :
    (c.withRelease key generation).releasing[a]? =
      if key = a then some ⟨generation, false⟩ else c.releasing[a]? :=
  Table.getElem?_insert

theorem Exact.withRelease {key generation : ℕ} (h : Exact c) (hl : c.live = true)
    (hfew : c.releasing.size < kMaxPendingSessionReleases) :
    Exact (c.withRelease key generation) := by
  have hjobs : Exact { c with jobs := c.jobs.map fun _ job => JobChannel.noteSession key job } := by
    refine h.renewed (fun {a job'} ha => ?_) (fun {a job'} ha => ?_) ?_
    · rw [Table.getElem?_map] at ha
      obtain ⟨job, hj, rfl⟩ := Option.map_eq_some_iff.1 ha
      exact ⟨job, hj, renewed_noteSession (h.job hj) key⟩
    · rw [Table.getElem?_map, ha]
      exact ⟨_, rfl, renewed_noteSession (h.job ha) key⟩
    · exact Std.TreeMap.size_map
  have hquiet : ¬(c.phase = .idle ∨ c.phase = .stopped) := by
    unfold JobChannel.live at hl
    simp only [Bool.and_eq_true, decide_eq_true_iff] at hl
    exact not_or.2 hl.1
  refine { hjobs with
    job := fun hj => (hjobs.job hj).mono le_rfl
    quiet := fun hq => absurd hq hquiet
    owned := fun f hf => ?_
    fewReleases := ?_
    drawn := fun m hm => ?_ }
  · have ho := hjobs.owned f hf
    unfold Owned at ho ⊢
    cases hw : f.owner with
    | release =>
      rw [hw] at ho
      obtain ⟨p, hp⟩ := ho
      show ∃ p', (c.withRelease key generation).releasing[f.key]? = some p'
      rw [releasing_withRelease]
      split_ifs
      · exact ⟨_, rfl⟩
      · exact ⟨p, hp⟩
    | submit | cancel | exchange | probe =>
      rw [hw] at ho
      exact ho
  · have hsize : (c.releasing.insert key ⟨generation, false⟩).size ≤ c.releasing.size + 1 :=
      Std.TreeMap.size_insert_le
    show (c.releasing.insert key ⟨generation, false⟩).size ≤ _
    omega
  · obtain ⟨n, hn, heq⟩ := h.drawn m hm
    exact ⟨n, Nat.lt_succ_of_lt hn, heq⟩

/-! ## Every call -/

theorem Exact.untouched {c' : JobChannel} (h : Exact c) (hu : c.Untouched c') : Exact c' := by
  rcases hu with rfl | rfl
  · exact h
  · exact h.same rfl (Nat.le_succ _) le_rfl

theorem Exact.submit (h : Exact c) (s : SubmittedJob) (window : Bool) (encoded : Option Error) :
    Exact { (c.submit s window encoded).1 with
      serials := (c.submit s window encoded).1.serials + 1 } := by
  rcases JobChannel.submit_cases (c := c) s window encoded with
    ⟨c', error, hu, heq⟩ | ⟨-, -, hp, he, -, -, hnone, hfew, heq⟩
  · rw [heq]
    exact (h.untouched hu).same rfl le_rfl (Nat.le_succ _)
  · rw [heq]
    refine (h.withJob hp he hnone hfew).queued ?_ fun f hf ho hk => ?_
    · exact ⟨c.newJob s, by rw [jobs_withJob, if_pos rfl]⟩
    · have hown := h.owned f hf
      unfold Owned at hown
      rw [ho, hk, hnone] at hown
      obtain ⟨_, hj⟩ := hown
      cases hj

theorem Exact.cancel (h : Exact c) (jobId : ℕ) (encoded : Option Error) :
    Exact (c.cancel jobId encoded).1 := by
  rcases JobChannel.cancel_cases (c := c) jobId encoded with
    ⟨c', error, hu, heq⟩ | ⟨job, hj, ⟨-, heq⟩ | ⟨-, hc, heq⟩⟩
  · rw [heq]
    exact h.untouched hu
  · rw [heq]
    exact h
  · rw [heq]
    refine (h.withCancel hj hc).queued ?_ fun f hf ho hk => ?_
    · exact ⟨_, by rw [jobs_withCancel, if_pos rfl], messageId_ne_empty _⟩
    · have hown := h.owned f hf
      unfold Owned at hown
      rw [ho, hk] at hown
      obtain ⟨job', hj', hne⟩ := hown
      rw [hj] at hj'
      cases hj'
      exact hne hc

theorem Exact.releaseSession (h : Exact c) (key generation : ℕ) (encoded : Option Error) :
    Exact (c.releaseSession key generation encoded).1 := by
  rcases JobChannel.releaseSession_cases (c := c) key generation encoded with
    ⟨c', error, hu | ⟨-, -, hu⟩, heq⟩ | ⟨hl, ⟨-, heq⟩ | ⟨hnone, -, hfew, heq⟩⟩
  · rw [heq]
    exact h.untouched hu
  · rw [heq, hu]
    exact h.same rfl le_rfl le_rfl
  · rw [heq]
    exact h
  · rw [heq]
    refine (h.withRelease hl hfew).queued ?_ fun f hf ho hk => ?_
    · exact ⟨_, by rw [releasing_withRelease, if_pos rfl]⟩
    · have hown := h.owned f hf
      unfold Owned at hown
      rw [ho, hk, hnone] at hown
      obtain ⟨_, hp⟩ := hown
      cases hp

theorem Exact.exchange (h : Exact c) (messageId : String) (encoded : Option Error) :
    Exact (c.exchange messageId encoded).1 := by
  rcases JobChannel.exchange_cases (c := c) messageId encoded with
    ⟨error, heq⟩ | ⟨hi, hs, hf, hu, heq⟩
  · rw [heq]
    exact h
  · rw [heq]
    have hwaits : Exact { c with
        unary := some ⟨c.tickets, messageId⟩, tickets := c.tickets + 1 } :=
      { h with
        job := fun hj => (h.job hj).mono le_rfl
        ended := fun he => by
          have := (h.ended he).1
          rw [hf] at this
          cases this
        quiet := fun hq => absurd hq (not_or.2 ⟨hi, hs⟩)
        owned := fun f hf => by
          have ho := h.owned f hf
          unfold Owned at ho ⊢
          cases hw : f.owner with
          | exchange =>
            rw [hw] at ho
            exact ⟨ho.1, rfl⟩
          | submit | cancel | release | probe =>
            rw [hw] at ho
            exact ho }
    refine hwaits.queued ⟨rfl, rfl⟩ fun f hf ho _ => ?_
    have hown := h.owned f hf
    unfold Owned at hown
    rw [ho, hu] at hown
    cases hown.2

theorem Exact.exchangeWake (h : Exact c) (ticket : ℕ) : Exact (c.exchangeWake ticket).1 := by
  unfold JobChannel.exchangeWake
  split
  · exact h.same rfl le_rfl le_rfl
  · exact h.unaryGone

theorem Exact.probeHealth (h : Exact c) (encoded : Option Error) :
    Exact (c.probeHealth encoded).1 := by
  rcases JobChannel.probeHealth_cases (c := c) encoded with
    ⟨c', error, hu, heq⟩ | ⟨i, heq⟩ | ⟨hp, he, hnone, heq⟩
  · rw [heq]
    exact h.untouched hu
  · rw [heq]
    exact h.same rfl le_rfl le_rfl
  · rw [heq]
    have hprobe : Exact c.withProbe :=
      { h with
        job := fun hj => (h.job hj).mono le_rfl
        ended := fun hended => by
          rw [show c.ended = true from hended] at he
          cases he
        quiet := fun hq => by
          have hq' : c.phase = .idle ∨ c.phase = .stopped := hq
          rw [hp] at hq'
          rcases hq' with hq' | hq' <;> cases hq'
        owned := fun f hf => by
          have ho := h.owned f hf
          unfold Owned at ho ⊢
          cases hw : f.owner with
          | probe =>
            rw [hw] at ho
            exact ⟨ho.1, rfl⟩
          | submit | cancel | release | exchange =>
            rw [hw] at ho
            exact ho
        drawn := fun m hm => by
          obtain ⟨n, hn, heq⟩ := h.drawn m hm
          exact ⟨n, Nat.lt_succ_of_lt hn, heq⟩ }
    have hqueued : Exact (c.withProbe.queueLocked .probe 0) := by
      refine hprobe.queued ⟨rfl, rfl⟩ fun f hf ho _ => ?_
      have hown := h.owned f hf
      unfold Owned at hown
      rw [ho, hnone] at hown
      cases hown.2
    exact hqueued.same rfl le_rfl le_rfl

theorem Exact.probeWake (h : Exact c) (i : ℕ) : Exact (c.probeWake i).1 := by
  unfold JobChannel.probeWake
  dsimp only
  split
  · exact h.same rfl le_rfl le_rfl
  · exact h.same rfl le_rfl le_rfl

end

end Channel

end Tensorplate
