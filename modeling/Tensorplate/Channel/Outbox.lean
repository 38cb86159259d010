import Mathlib.Data.List.Nodup
import Tensorplate.Channel.Kept

/-!
# The queue is exact

Every frame that waits for the writer belongs to a record that stands, at
most one of each kind for each record, and the message ids the channel
keeps are those of the jobs in its table. The records bound the queue, and
a channel that is not started has none.
-/

namespace Tensorplate

namespace Channel

open Lib

/-- The message ids of a job. -/
def Job.IsNamed (job : Job) (id : String) : Prop :=
  id = job.submitMessageId ∨ (id = job.cancelMessageId ∧ id ≠ "")

/-- The record a frame was queued for stands. -/
def Owned (c : JobChannel) (f : QueuedFrame) : Prop :=
  match f.owner with
  | .submit => ∃ job : Job, c.jobs[f.key]? = some job
  | .cancel => ∃ job : Job, c.jobs[f.key]? = some job ∧ job.cancelMessageId ≠ ""
  | .release => ∃ p : PendingRelease, c.releasing[f.key]? = some p
  | .exchange => f.key = 0 ∧ c.unary.isSome = true
  | .probe => f.key = 0 ∧ c.probe.isSome = true

/-- What a frame was queued for. -/
def QueuedFrame.record (f : QueuedFrame) : QueuedFor × ℕ := (f.owner, f.key)

/-- **The invariant of the queue.** -/
structure Exact (c : JobChannel) : Prop extends Sound c where
  owned : ∀ f ∈ c.outbox, Owned c f
  once : (c.outbox.map QueuedFrame.record).Nodup
  current : ∀ f ∈ c.outbox, f.connection = c.connection
  fewJobs : c.jobs.size ≤ kMaxOpenJobs
  fewReleases : c.releasing.size ≤ kMaxPendingSessionReleases
  named : ∀ id j, (id, j) ∈ c.messageJobs ↔ ∃ job, c.jobs[j]? = some job ∧ job.IsNamed id
  names : (c.messageJobs.map Prod.fst).Nodup
  drawn : ∀ m ∈ c.messageJobs, ∃ n < c.messages, m.1 = messageId n
  found : c.missingJob = false

/-! ## Message ids -/

theorem messageId_injective {m n : ℕ} (h : messageId m = messageId n) : m = n := by
  have hlist := congrArg String.toList h
  unfold messageId at hlist
  rw [String.toList_append, String.toList_append] at hlist
  have hd := List.append_cancel_left hlist
  have hr : ∀ k : ℕ, (toString k).toList = Nat.toDigits 10 k := fun k => by
    show (Nat.repr k).toList = _
    exact String.toList_ofList
  rw [hr, hr] at hd
  rw [← Nat.ofDigitChars_toDigits (b := 10) (n := m) (by omega) (by omega), hd]
  exact Nat.ofDigitChars_toDigits (by omega) (by omega)

theorem messageId_ne_empty (n : ℕ) : messageId n ≠ "" := by
  intro h
  have := congrArg String.length h
  unfold messageId at this
  rw [String.length_append] at this
  have h7 : ("tp-msg-" : String).length = 7 := rfl
  have h0 : ("" : String).length = 0 := rfl
  omega

/-! ## Frames -/

theorem mem_unqueue {c : JobChannel} {owner : QueuedFor} {key : ℕ} {f : QueuedFrame} :
    f ∈ (c.unqueueLocked owner key).outbox ↔
      f ∈ c.outbox ∧ ¬(f.owner = owner ∧ f.key = key) := by
  unfold JobChannel.unqueueLocked
  rw [List.mem_filter]
  simp only [Bool.not_eq_true', decide_eq_false_iff_not]

theorem once_filter {frames : List QueuedFrame} (p : QueuedFrame → Bool)
    (h : (frames.map QueuedFrame.record).Nodup) :
    ((frames.filter p).map QueuedFrame.record).Nodup :=
  h.sublist ((List.filter_sublist).map _)

/-! ## Records that are renewed in place -/

/-- A job that was told something: what names it and numbers it stays. -/
structure Renewed (c : JobChannel) (k : ℕ) (job job' : Job) : Prop where
  submit : job'.submitMessageId = job.submitMessageId
  cancel : job'.cancelMessageId = job.cancelMessageId
  serial : job'.serial = job.serial
  sound : JobSound c k job'
  terminal : job.sequence.terminal = true → job'.sequence.terminal = true

section

variable {c c' : JobChannel} {k : ℕ} {job : Job} {e : JobEvent} {q : JobEventSequence}

theorem JobSound.mono (h : JobSound c k job) (hs : c.serials ≤ c'.serials) : JobSound c' k job :=
  { h with numbered := h.numbered.trans_le hs }

/-- A job that was told anything but its release. -/
theorem JobSound.renewed (h : JobSound c k job) (ho : job.sequence.observe e = .ok q)
    (he : e.body ≠ .released) : Renewed c k job { job with sequence := q } := by
  obtain ⟨totals, -, hq⟩ := JobEventSequence.observe_eq_ok.1 ho
  refine ⟨rfl, rfl, rfl, ⟨h.id, h.valid, ?_, ?_, h.numbered⟩, fun ht => ?_⟩
  · rw [hq, JobEventSequence.advance_identity]
    exact h.judged
  · rw [hq, JobEventSequence.advance_released he]
    exact h.unreleased
  · rw [hq]
    exact JobEventSequence.advance_terminal ht totals

/-- A job whose cancel is noted. -/
theorem JobSound.noted (h : JobSound c k job) :
    Renewed c k job { job with sequence := job.sequence.noteCancelRequested } :=
  ⟨rfl, rfl, rfl, ⟨h.id, h.valid, h.judged, h.unreleased, h.numbered⟩, fun ht => ht⟩

/-- The jobs of the table are renewed, or leave it. -/
theorem Sound.renewed {jobs : Table Job} (h : Sound c)
    (hjobs : ∀ {k : ℕ} {job' : Job}, jobs[k]? = some job' →
      ∃ job, c.jobs[k]? = some job ∧ job'.serial = job.serial ∧ JobSound c k job' ∧
        (job.sequence.terminal = true → job'.sequence.terminal = true)) :
    Sound { c with jobs := jobs } where
  job := fun hj => by
    obtain ⟨_, _, _, hs, _⟩ := hjobs hj
    exact hs.mono le_rfl
  serials := fun hj hj' heq => by
    obtain ⟨_, h₁, hn₁, -, -⟩ := hjobs hj
    obtain ⟨_, h₂, hn₂, -, -⟩ := hjobs hj'
    exact h.serials h₁ h₂ (by rw [← hn₁, ← hn₂, heq])
  ended := fun he => by
    obtain ⟨hf, hu, hp, ht⟩ := h.ended he
    refine ⟨hf, hu, hp, fun hj => ?_⟩
    obtain ⟨_, h₁, -, -, hterm⟩ := hjobs hj
    exact hterm (ht h₁)
  quiet := fun hq => by
    obtain ⟨hj, hr, hu, hp, he⟩ := h.quiet hq
    refine ⟨fun k => ?_, hr, hu, hp, he⟩
    by_contra hne
    obtain ⟨job', hj'⟩ := Option.ne_none_iff_exists'.1 hne
    obtain ⟨_, h₁, -⟩ := hjobs hj'
    rw [hj k] at h₁
    cases h₁

/-- The jobs of the table are renewed where they stand. -/
theorem Exact.renewed {jobs : Table Job} (h : Exact c)
    (hto : ∀ {k : ℕ} {job' : Job}, jobs[k]? = some job' →
      ∃ job, c.jobs[k]? = some job ∧ Renewed c k job job')
    (hof : ∀ {k : ℕ} {job : Job}, c.jobs[k]? = some job →
      ∃ job', jobs[k]? = some job' ∧ Renewed c k job job')
    (hsize : jobs.size = c.jobs.size) : Exact { c with jobs := jobs } where
  toSound := h.toSound.renewed fun hj => by
    obtain ⟨job, h₁, hr⟩ := hto hj
    exact ⟨job, h₁, hr.serial, hr.sound, hr.terminal⟩
  owned := fun f hf => by
    have ho := h.owned f hf
    unfold Owned at ho ⊢
    cases hw : f.owner with
    | submit =>
      rw [hw] at ho
      obtain ⟨job, hj⟩ := ho
      obtain ⟨job', hj', -⟩ := hof hj
      exact ⟨job', hj'⟩
    | cancel =>
      rw [hw] at ho
      obtain ⟨job, hj, hne⟩ := ho
      obtain ⟨job', hj', hr⟩ := hof hj
      exact ⟨job', hj', by rw [hr.cancel]; exact hne⟩
    | release | exchange | probe =>
      rw [hw] at ho
      exact ho
  once := h.once
  current := h.current
  fewJobs := by
    show jobs.size ≤ _
    rw [hsize]
    exact h.fewJobs
  fewReleases := h.fewReleases
  named := fun id j => by
    rw [h.named id j]
    constructor
    · rintro ⟨job, hj, hn⟩
      obtain ⟨job', hj', hr⟩ := hof hj
      refine ⟨job', hj', ?_⟩
      unfold Job.IsNamed
      rw [hr.submit, hr.cancel]
      exact hn
    · rintro ⟨job', hj', hn⟩
      obtain ⟨job, hj, hr⟩ := hto hj'
      refine ⟨job, hj, ?_⟩
      unfold Job.IsNamed at hn
      rw [hr.submit, hr.cancel] at hn
      exact hn
  names := h.names
  drawn := h.drawn
  found := h.found

/-- A channel with the same records is in the same order. -/
theorem Sound.same (h : Sound c) (hjobs : c'.jobs = c.jobs) (hrel : c'.releasing = c.releasing)
    (hunary : c'.unary = c.unary) (hprobe : c'.probe = c.probe) (hphase : c'.phase = c.phase)
    (hended : c'.ended = c.ended) (hfail : c'.failure.isSome = c.failure.isSome)
    (hs : c.serials ≤ c'.serials) : Sound c' := by
  refine ⟨?_, ?_, ?_, ?_⟩
  · intro k job hj
    rw [hjobs] at hj
    exact (h.job hj).mono hs
  · rw [hjobs]
    exact h.serials
  · rw [hended, hfail, hunary, hprobe, hjobs]
    exact h.ended
  · rw [hphase, hjobs, hrel, hunary, hprobe, hended]
    exact h.quiet

/-- What the invariant reads, but for the two counters. -/
def JobChannel.records (c : JobChannel) :=
  (c.jobs, c.releasing, c.outbox, c.unary, c.probe, c.messageJobs, c.phase, c.ended,
    c.failure.isSome, c.connection, c.missingJob)

theorem Exact.same (h : Exact c) (hr : c'.records = c.records) (hm : c.messages ≤ c'.messages)
    (hs : c.serials ≤ c'.serials) : Exact c' := by
  simp only [JobChannel.records, Prod.mk.injEq] at hr
  obtain ⟨hjobs, hrel, hout, hunary, hprobe, hmsg, hphase, hended, hfail, hconn, hmiss⟩ := hr
  refine ⟨h.toSound.same hjobs hrel hunary hprobe hphase hended hfail hs, ?_, ?_, ?_, ?_, ?_, ?_,
    ?_, ?_, ?_⟩
  · unfold Owned
    rw [hout, hjobs, hrel, hunary, hprobe]
    exact h.owned
  · rw [hout]
    exact h.once
  · rw [hout, hconn]
    exact h.current
  · rw [hjobs]
    exact h.fewJobs
  · rw [hrel]
    exact h.fewReleases
  · rw [hmsg, hjobs]
    exact h.named
  · rw [hmsg]
    exact h.names
  · rw [hmsg]
    intro m hmem
    obtain ⟨n, hn, heq⟩ := h.drawn m hmem
    exact ⟨n, hn.trans_le hm, heq⟩
  · rw [hmiss]
    exact h.found

/-! ## Records that end -/

/-- The exchange that waits is over, with its frame. -/
theorem Exact.unaryGone (h : Exact c) :
    Exact (JobChannel.unqueueLocked { c with unary := none } .exchange 0) where
  job := fun hj => (h.job hj).mono le_rfl
  serials := h.serials
  ended := fun he => by
    obtain ⟨hf, -, hp, ht⟩ := h.ended he
    exact ⟨hf, rfl, hp, ht⟩
  quiet := fun hq => by
    obtain ⟨hj, hr, -, hp, he⟩ := h.quiet hq
    exact ⟨hj, hr, rfl, hp, he⟩
  owned := fun f hf => by
    obtain ⟨hf, hne⟩ := mem_unqueue.1 hf
    have ho := h.owned f hf
    unfold Owned at ho ⊢
    cases hw : f.owner with
    | exchange =>
      rw [hw] at ho
      exact absurd ⟨hw, ho.1⟩ hne
    | submit | cancel | release | probe =>
      rw [hw] at ho
      exact ho
  once := once_filter _ h.once
  current := fun f hf => h.current f (mem_unqueue.1 hf).1
  fewJobs := h.fewJobs
  fewReleases := h.fewReleases
  named := h.named
  names := h.names
  drawn := h.drawn
  found := h.found

/-- The probe that stands is answered, with its frame. -/
theorem Exact.probeGone (h : Exact c) :
    Exact (JobChannel.unqueueLocked { c with probe := none } .probe 0) where
  job := fun hj => (h.job hj).mono le_rfl
  serials := h.serials
  ended := fun he => by
    obtain ⟨hf, hu, -, ht⟩ := h.ended he
    exact ⟨hf, hu, rfl, ht⟩
  quiet := fun hq => by
    obtain ⟨hj, hr, hu, -, he⟩ := h.quiet hq
    exact ⟨hj, hr, hu, rfl, he⟩
  owned := fun f hf => by
    obtain ⟨hf, hne⟩ := mem_unqueue.1 hf
    have ho := h.owned f hf
    unfold Owned at ho ⊢
    cases hw : f.owner with
    | probe =>
      rw [hw] at ho
      exact absurd ⟨hw, ho.1⟩ hne
    | submit | cancel | release | exchange =>
      rw [hw] at ho
      exact ho
  once := once_filter _ h.once
  current := fun f hf => h.current f (mem_unqueue.1 hf).1
  fewJobs := h.fewJobs
  fewReleases := h.fewReleases
  named := h.named
  names := h.names
  drawn := h.drawn
  found := h.found

/-- A pending release is acknowledged, with its frame. -/
theorem Exact.acknowledged (h : Exact c) (key : ℕ) (p : PendingRelease) :
    Exact (c.acknowledgeLocked key p).1 where
  job := fun hj => (h.job hj).mono le_rfl
  serials := h.serials
  ended := h.ended
  quiet := fun hq => by
    obtain ⟨hj, hr, hu, hp, he⟩ := h.quiet hq
    refine ⟨hj, fun k => ?_, hu, hp, he⟩
    rw [releasing_acknowledgeLocked, hr k]
    split_ifs <;> rfl
  owned := fun f hf => by
    obtain ⟨hf, hne⟩ := mem_unqueue.1 hf
    have ho := h.owned f hf
    unfold Owned at ho ⊢
    cases hw : f.owner with
    | release =>
      rw [hw] at ho
      obtain ⟨p', hp'⟩ := ho
      refine ⟨p', ?_⟩
      rw [releasing_acknowledgeLocked, if_neg fun heq => hne ⟨hw, heq.symm⟩]
      exact hp'
    | submit | cancel | exchange | probe =>
      rw [hw] at ho
      exact ho
  once := once_filter _ h.once
  current := fun f hf => h.current f (mem_unqueue.1 hf).1
  fewJobs := h.fewJobs
  fewReleases := Std.TreeMap.size_erase_le.trans h.fewReleases
  named := h.named
  names := h.names
  drawn := h.drawn
  found := h.found

/-- A pending release is renewed where it stands. -/
theorem Exact.marked {key : ℕ} {p : PendingRelease} (h : Exact c)
    (hp : c.releasing[key]? = some p) (p' : PendingRelease) :
    Exact { c with releasing := c.releasing.insert key p' } where
  job := fun hj => (h.job hj).mono le_rfl
  serials := h.serials
  ended := h.ended
  quiet := fun hq => by
    have hr := (h.quiet hq).2.1 key
    rw [hp] at hr
    cases hr
  owned := fun f hf => by
    have ho := h.owned f hf
    unfold Owned at ho ⊢
    cases hw : f.owner with
    | release =>
      rw [hw] at ho
      obtain ⟨p₁, hp₁⟩ := ho
      show ∃ p₂, (c.releasing.insert key p')[f.key]? = some p₂
      rw [Table.getElem?_insert]
      split_ifs
      · exact ⟨p', rfl⟩
      · exact ⟨p₁, hp₁⟩
    | submit | cancel | exchange | probe =>
      rw [hw] at ho
      exact ho
  once := h.once
  current := h.current
  fewJobs := h.fewJobs
  fewReleases := by
    show (c.releasing.insert key p').size ≤ _
    rw [Std.TreeMap.size_insert, if_pos]
    · exact h.fewReleases
    · exact Std.TreeMap.contains_iff_mem.2 (Table.mem_iff_getElem?.2 ⟨p, hp⟩)
  named := h.named
  names := h.names
  drawn := h.drawn
  found := h.found

/-- A job that was told that it is released leaves the table. -/
def JobChannel.without (c : JobChannel) (k : ℕ) (job : Job) (q : JobEventSequence) : JobChannel :=
  (c.setSequence k job q).eraseJob k { job with sequence := q }

theorem jobs_without (a : ℕ) :
    (c.without k job q).jobs[a]? = if k = a then none else c.jobs[a]? := by
  unfold JobChannel.without
  rw [jobs_eraseJob, jobs_setSequence]
  split_ifs <;> rfl

theorem mem_outbox_without {f : QueuedFrame} : f ∈ (c.without k job q).outbox ↔
    f ∈ c.outbox ∧ ¬(f.owner = .submit ∧ f.key = k) ∧ ¬(f.owner = .cancel ∧ f.key = k) := by
  have h₁ : f ∈ (c.without k job q).outbox ↔ _ := mem_unqueue
  rw [h₁, mem_unqueue, and_assoc]
  rfl

theorem mem_messageJobs_without {m : String × ℕ} : m ∈ (c.without k job q).messageJobs ↔
    m ∈ c.messageJobs ∧ m.1 ≠ job.submitMessageId ∧ m.1 ≠ job.cancelMessageId := by
  show m ∈ c.messageJobs.filter _ ↔ _
  rw [List.mem_filter, decide_eq_true_iff]

/-- One message id names one job. -/
theorem Exact.one_name (h : Exact c) {id : String} {j j' : ℕ} (hj : (id, j) ∈ c.messageJobs)
    (hj' : (id, j') ∈ c.messageJobs) : j = j' := by
  have heq := List.inj_on_of_nodup_map h.names hj hj' rfl
  exact congrArg Prod.snd heq

/-- What names a job that leaves names no other. -/
theorem Exact.named_without (h : Exact c) (hj : c.jobs[k]? = some job) (id : String) (j : ℕ) :
    (id, j) ∈ (c.without k job q).messageJobs ↔
      ∃ job', (c.without k job q).jobs[j]? = some job' ∧ job'.IsNamed id := by
  rw [mem_messageJobs_without, h.named, jobs_without]
  constructor
  · rintro ⟨⟨job', hj', hn⟩, hs, hc⟩
    refine ⟨job', ?_, hn⟩
    rw [if_neg]
    · exact hj'
    · rintro rfl
      rw [hj] at hj'
      cases hj'
      rcases hn with hn | hn
      · exact hs hn
      · exact hc hn.1
  · rintro ⟨job', hj', hn⟩
    split_ifs at hj' with hk
    have hmem := (h.named id j).2 ⟨job', hj', hn⟩
    refine ⟨⟨job', hj', hn⟩, fun hs => hk ?_, fun hc => hk ?_⟩
    · exact h.one_name ((h.named id k).2 ⟨job, hj, .inl hs⟩) hmem
    · have hne : id ≠ "" := by
        obtain ⟨n, -, hdrawn⟩ := h.drawn _ hmem
        rw [show id = messageId n from hdrawn]
        exact messageId_ne_empty n
      exact h.one_name ((h.named id k).2 ⟨job, hj, .inr ⟨hc, hne⟩⟩) hmem

theorem Exact.gone (h : Exact c) (hj : c.jobs[k]? = some job) : Exact (c.without k job q) where
  job := fun {a job'} ha => by
    rw [jobs_without] at ha
    split_ifs at ha
    exact (h.job ha).mono le_rfl
  serials := fun {a b _ _} ha hb => by
    rw [jobs_without] at ha hb
    split_ifs at ha hb
    exact h.serials ha hb
  ended := fun he => by
    obtain ⟨hf, hu, hp, ht⟩ := h.ended he
    refine ⟨hf, hu, hp, fun {a job'} ha => ?_⟩
    rw [jobs_without] at ha
    split_ifs at ha
    exact ht ha
  quiet := fun hq => by
    have hnone := (h.quiet hq).1 k
    rw [hj] at hnone
    cases hnone
  owned := fun f hf => by
    obtain ⟨hf, hs, hc⟩ := mem_outbox_without.1 hf
    have ho := h.owned f hf
    unfold Owned at ho ⊢
    cases hw : f.owner with
    | submit =>
      rw [hw] at ho
      obtain ⟨job', hj'⟩ := ho
      refine ⟨job', ?_⟩
      rw [jobs_without, if_neg fun heq => hs ⟨hw, heq.symm⟩]
      exact hj'
    | cancel =>
      rw [hw] at ho
      obtain ⟨job', hj', hne⟩ := ho
      refine ⟨job', ?_, hne⟩
      rw [jobs_without, if_neg fun heq => hc ⟨hw, heq.symm⟩]
      exact hj'
    | release | exchange | probe =>
      rw [hw] at ho
      exact ho
  once := once_filter _ (once_filter _ h.once)
  current := fun f hf => h.current f (mem_outbox_without.1 hf).1
  fewJobs := by
    have hin : c.jobs.contains k = true :=
      Std.TreeMap.contains_iff_mem.2 (Table.mem_iff_getElem?.2 ⟨job, hj⟩)
    have hsize : ((c.jobs.insert k { job with sequence := q }).erase k).size ≤ c.jobs.size := by
      refine Std.TreeMap.size_erase_le.trans ?_
      rw [Std.TreeMap.size_insert, if_pos hin]
    exact hsize.trans h.fewJobs
  fewReleases := h.fewReleases
  named := h.named_without hj
  names := h.names.sublist ((List.filter_sublist).map _)
  drawn := fun m hm => h.drawn m (mem_messageJobs_without.1 hm).1
  found := h.found

/-- **The queue stays exact** under everything a locked function does. -/
theorem kept_exact : Kept fun c _ => Exact c where
  sound := fun h => h.toSound
  named := fun {c _ id j} h hl => by
    have hmem : (id, j) ∈ c.messageJobs := by
      obtain ⟨l₁, l₂, heq, -⟩ := List.lookup_eq_some_iff.1 hl
      rw [heq]
      simp
    obtain ⟨job, hj, -⟩ := (h.named id j).1 hmem
    exact ⟨job, hj⟩
  told := fun {c _ k job e q} h hj ho he => by
    have hr := (h.job hj).renewed ho he
    refine h.renewed (fun {a job'} ha => ?_) (fun {a job'} ha => ?_) ?_
    · rw [Table.getElem?_insert] at ha
      split_ifs at ha with hk
      · subst hk
        cases ha
        exact ⟨job, hj, hr⟩
      · exact ⟨job', ha, rfl, rfl, rfl, h.job ha, fun ht => ht⟩
    · rw [Table.getElem?_insert]
      split_ifs with hk
      · subst hk
        rw [hj] at ha
        cases ha
        exact ⟨_, rfl, hr⟩
      · exact ⟨job', ha, rfl, rfl, rfl, h.job ha, fun ht => ht⟩
    · rw [Std.TreeMap.size_insert, if_pos]
      exact Std.TreeMap.contains_iff_mem.2 (Table.mem_iff_getElem?.2 ⟨job, hj⟩)
  gone := fun h hj _ _ => h.gone hj
  acknowledged := fun {_ _ key p} h _ _ => h.acknowledged key p
  marked := fun h hp => h.marked hp _
  jobDropped := fun h => h.same rfl le_rfl le_rfl
  otherDropped := fun h => h.same rfl le_rfl le_rfl
  unaryAnswered := fun {c _} outcome h => by
    unfold JobChannel.answerUnary
    split
    · exact h
    · exact h.unaryGone.same rfl le_rfl le_rfl
  probeEnded := fun {c _} outcome h => by
    unfold JobChannel.endProbeLocked
    split
    · exact h
    · exact h.probeGone.same rfl le_rfl le_rfl
  ended := fun {c _} failure h hi hs hu hp ht =>
    { h with
      job := fun hj => (h.job hj).mono le_rfl
      ended := fun _ => ⟨rfl, hu, hp, ht⟩
      quiet := fun hq => by
        rcases hq with hq | hq
        · exact absurd hq hi
        · exact absurd hq hs }
  stopped := fun {c _} h hu hp hj hr =>
    { h with
      job := fun hj => (h.job hj).mono le_rfl
      ended := fun he => by cases he
      quiet := fun _ => ⟨hj, hr, hu, hp, rfl⟩ }

end

end Channel

end Tensorplate
