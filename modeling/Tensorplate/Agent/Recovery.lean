import Tensorplate.Agent.Journal
import Tensorplate.Lib.Runs

/-!
# A start settles what it finds

The life of an agent keeps what its journal says, wherever a write ends
and whenever the process is killed (`Inv`). A start that finds the journal's
transaction in flight therefore decides as the journal does, and what it
leaves are the records from before the transaction or those it wrote.
-/

namespace Tensorplate

namespace Agent

open StateStore

/-! ## The life of an agent -/

/-- What `update` is about to write is the closure's result, stamped and
valid. -/
theorem run_of_checked {α : Type} {codec : StateCodec} {store : StateStore} {f : StateUpdate α}
    {outcome : α} {next : AgentState} {encoded : String}
    (h : store.checked codec f = .ok (outcome, next, encoded)) :
    ∃ changed, f.run store.inner = .ok (outcome, changed) ∧ next = stamp changed ∧
      (stamp changed).valid = true := by
  have hvalid : next.valid = true :=
    StateCodec.valid_of_decode (StateCodec.decode_of_encodeChecked (encodeChecked_of_checked h))
  unfold checked at h
  split at h
  · cases h
  · rename_i outcome' changed hrun
    dsimp only at h
    split at h
    · cases h
    · split at h
      · cases h
      · simp only [Except.ok.injEq, Prod.mk.injEq] at h
        obtain ⟨rfl, rfl, -⟩ := h
        exact ⟨changed, hrun, rfl, hvalid⟩

theorem reads_unique {codec : StateCodec} {dir : StateDir} {s s' : AgentState}
    (h : Reads codec dir s) (h' : Reads codec dir s') : s = s' := by
  obtain ⟨b, hb⟩ := reads_iff.1 h
  obtain ⟨b', hb'⟩ := reads_iff.1 h'
  rw [hb] at hb'
  simp only [Except.ok.injEq, Prod.mk.injEq] at hb'
  exact hb'.1

namespace History

variable {codec : StateCodec} {linux : Bool} {h h' : History}

/-- **How a write of the process ends**, by what a start reads. -/
inductive Wrote (codec : StateCodec) (h : History) (docs : Documents) (store : StateStore)
    (write : Write) (next : Reply → Option Job) : History → Prop
  /-- It did not land: the process ended, or goes on with an error. -/
  | kept {life : Life} {files : StateDir} {journal : Journal}
      (hlife : life = .down files ∨ ∃ t e, t.files = files ∧ Sound codec t ∧ t.inner = store.inner ∧
        t.indeterminate = store.indeterminate ∧ life = .go t (next (.failed e)))
      (hread : ∀ s, Reads codec files s → Reads codec store.files s)
      (hjournal : journal = h.journal ∨ journal = h.journal.wrote store.inner write ∧
        ∃ taken changed, write.run docs store.inner = .ok (taken, changed) ∧
          stamp changed = store.inner ∧ store.indeterminate = false) :
      Wrote codec h docs store write next ⟨life, journal⟩
  /-- It landed: the process ended, or goes on with a store that refuses
  every write. -/
  | landed {life : Life} {files : StateDir} {taken : Taken} {changed : AgentState}
      (hlife : life = .down files ∨ ∃ t e, t.files = files ∧ Sound codec t ∧
        t.indeterminate = true ∧ life = .go t (next (.failed e)))
      (hopen : store.indeterminate = false)
      (hrun : write.run docs store.inner = .ok (taken, changed)) (hv : (stamp changed).valid = true)
      (hread : ∀ s, Reads codec files s → s = stamp changed) :
      Wrote codec h docs store write next ⟨life, h.journal.wrote store.inner write⟩
  | written {t : StateStore} {taken : Taken} {changed : AgentState} (ht : t.inner = stamp changed)
      (hs : Sound codec t) (hi : t.indeterminate = false) (hopen : store.indeterminate = false)
      (hrun : write.run docs store.inner = .ok (taken, changed)) (hv : (stamp changed).valid = true) :
      Wrote codec h docs store write next
        ⟨.go t (next (.taken taken)), h.journal.wrote store.inner write⟩

/-- **The spec of a write of the process.** -/
theorem write_spec (h : History) {turn : Turn} {store : StateStore} {write : Write}
    {next : Reply → Option Job} (hs : Sound codec store) :
    Wrote codec h turn.docs store write next (h.write codec linux turn store write next) := by
  unfold History.write
  dsimp only
  cases hu : store.update codec linux (write.update turn.docs) turn.ends with
  | mk result t =>
    have hends := update_ends hs hu
    dsimp only
    cases hends with
    | closed hi hr =>
      obtain ⟨e, rfl, -⟩ := hr
      have hnot : lands codec store (write.update turn.docs) store = false := by
        unfold lands
        split
        · simp [hi]
        · rfl
      rw [hnot]
      exact .kept (.inr ⟨store, e, rfl, hs, rfl, rfl, rfl⟩) (fun s h => h) (.inl rfl)
    | @kept _ files hi hr hread =>
      have hreads : ∀ s, Reads codec files s → Reads codec store.files s := by
        intro s hread'
        have heq := reads_unique hread' (reads_iff.2 ⟨_, hread⟩)
        rw [heq]
        exact reads_iff.2 ⟨_, hs.memory hi⟩
      have hjournal : ∀ b, lands codec store (write.update turn.docs)
          { store with files := files } = b →
          (if b = true then h.journal.wrote store.inner write else h.journal) = h.journal ∨
          (if b = true then h.journal.wrote store.inner write else h.journal) =
              h.journal.wrote store.inner write ∧
            ∃ taken changed, write.run turn.docs store.inner = .ok (taken, changed) ∧
              stamp changed = store.inner ∧ store.indeterminate = false := by
        intro b hb
        cases b with
        | false => exact .inl rfl
        | true =>
          refine .inr ⟨rfl, ?_⟩
          unfold lands at hb
          split at hb
          · rename_i taken next' encoded s b' hn hread'
            obtain ⟨changed, hrun, rfl, -⟩ := run_of_checked hn
            simp only [Bool.and_eq_true, decide_eq_true_eq] at hb
            dsimp only at hread'
            rw [hread] at hread'
            simp only [Except.ok.injEq, Prod.mk.injEq] at hread'
            exact ⟨taken, changed, hrun, by rw [← hb.2, hread'.1], hi⟩
          · cases hb
      obtain rfl | ⟨e, rfl, -⟩ := hr
      · exact .kept (.inl rfl) hreads (hjournal _ rfl)
      · have hsound : Sound codec { store with files := files } :=
          ⟨fun _ => hread, _, reads_iff.2 ⟨_, hread⟩⟩
        exact .kept (.inr ⟨{ store with files := files }, e, rfl, hsound, rfl, rfl, rfl⟩) hreads
          (hjournal _ rfl)
    | @landed _ files taken next' encoded undecided primaryIsRead hi hn hr hread =>
      obtain ⟨changed, hrun, rfl, hv⟩ := run_of_checked hn
      have hlands : lands codec store (write.update turn.docs)
          { store with files := files, indeterminate := undecided } = true := by
        unfold lands
        dsimp only
        rw [hn, hread]
        simp [hi]
      rw [hlands, if_pos rfl]
      have hreads : ∀ s, Reads codec files s → s = stamp changed :=
        fun s hread' => reads_unique hread' (reads_iff.2 ⟨_, hread⟩)
      obtain rfl | ⟨⟨e, rfl, -⟩, rfl⟩ := hr
      · exact .landed (.inl rfl) hi hrun hv hreads
      · refine .landed (.inr ⟨_, e, rfl, ⟨fun h => ?_, _, reads_iff.2 ⟨_, hread⟩⟩, rfl, rfl⟩) hi hrun hv
          hreads
        cases h
    | @written files taken next' encoded hi hn hread =>
      obtain ⟨changed, hrun, rfl, hv⟩ := run_of_checked hn
      have hlands : lands codec store (write.update turn.docs)
          { store with files := files, inner := stamp changed, primaryIsRead := true } = true := by
        unfold lands
        dsimp only
        rw [hn, hread]
        simp [hi]
      rw [hlands, if_pos rfl]
      exact .written rfl ⟨fun _ => hread, _, reads_iff.2 ⟨_, hread⟩⟩ hi hi hrun hv

theorem files_up {store : StateStore} {job : Job} (hl : h.life = .up store job) :
    h.files = store.files := by
  unfold files
  rw [hl]

@[simp] theorem files_go (t : StateStore) (job : Option Job) (journal : Journal) :
    files ⟨.go t job, journal⟩ = t.files := by
  cases job <;> rfl

/-- A request that arrives touches no file. -/
theorem files_of_arrive {r : Request} (hstep : h.arrive r = some h') : h'.files = h.files := by
  unfold arrive at hstep
  split at hstep
  · rename_i store job hl
    split at hstep
    · cases hstep
      exact (files_up hl).symm
    · cases hstep
  · cases hstep

/-- What a restore writes is its naming or `last_error`. -/
theorem write_of_restore {restore : Restore} {write : Write} (hop : restore.op = .write write) :
    write.ofMember = true ∨ ∃ record, write = .nameRestore record := by
  cases restore <;> simp only [Restore.op, reduceCtorEq, Op.write.injEq] at hop
  · exact .inr ⟨_, hop.symm⟩
  · exact .inl (by rw [← hop]; rfl)

/-- What the process relies on of the state in memory. -/
def jobOk (s : AgentState) : Job → Prop
  | .serving r => r.Expects s ∧ r.Fresh s
  | _ => True

/-- **The invariant of an agent's life**: what a start would read is as
the journal says, and what the process is at relies on what it holds. -/
structure Inv (codec : StateCodec) (h : History) : Prop where
  durable : ∀ s, Reads codec h.files s → Journaled h.journal s
  sound : ∀ store job, h.life = .up store job → Sound codec store
  opened : ∀ store, h.life = .up store .settling → store.indeterminate = false
  known : ∀ store job, h.life = .up store job → job ≠ .settling → h.journal ≠ .foreign
  job : ∀ store job, h.life = .up store job → store.indeterminate = false → jobOk store.inner job

/-- The state in memory is as the journal says. -/
theorem Inv.memory (hinv : Inv codec h) {store : StateStore} {job : Job}
    (hl : h.life = .up store job) (hi : store.indeterminate = false) :
    Journaled h.journal store.inner := by
  have hread : Reads codec store.files store.inner :=
    reads_iff.2 ⟨_, (hinv.sound store job hl).memory hi⟩
  exact hinv.durable _ (files_up hl ▸ hread)

/-- A life that is down, or goes on beside a journal that keeps it. -/
theorem inv_of_go {t : StateStore} {job : Option Job} {journal : Journal}
    (hdurable : ∀ s, Reads codec t.files s → Journaled journal s) (hs : Sound codec t)
    (hjob : ∀ job', job = some job' → job' ≠ .settling ∧ journal ≠ .foreign ∧
      (t.indeterminate = false → jobOk t.inner job')) :
    Inv codec ⟨.go t job, journal⟩ := by
  cases job with
  | none =>
    refine ⟨hdurable, ?_, ?_, ?_, ?_⟩
    · rintro store job ⟨⟩
    · rintro store ⟨⟩
    · rintro store job ⟨⟩
    · rintro store job ⟨⟩
  | some job =>
    obtain ⟨hne, hknown, hok⟩ := hjob job rfl
    refine ⟨hdurable, ?_, ?_, ?_, ?_⟩
    · rintro store job' ⟨⟩
      exact hs
    · rintro store ⟨⟩
      exact absurd rfl hne
    · rintro store job' ⟨⟩ -
      exact hknown
    · rintro store job' ⟨⟩ hi
      exact hok hi

theorem inv_down {dir : StateDir} {journal : Journal}
    (hdurable : ∀ s, Reads codec dir s → Journaled journal s) :
    Inv codec ⟨.down dir, journal⟩ := by
  refine ⟨hdurable, ?_, ?_, ?_, ?_⟩
  · rintro store job ⟨⟩
  · rintro store ⟨⟩
  · rintro store job ⟨⟩
  · rintro store job ⟨⟩

/-- **A write keeps the invariant**, once its closure keeps what the
journal says and the process goes on as it relies on. -/
theorem inv_of_wrote {docs : Documents} {store : StateStore} {job : Job} {write : Write}
    {next : Reply → Option Job} (hinv : Inv codec h) (hl : h.life = .up store job)
    (hw : Wrote codec h docs store write next h')
    (hlanded : ∀ taken changed, store.indeterminate = false →
      write.run docs store.inner = .ok (taken, changed) → (stamp changed).valid = true →
      Journaled (h.journal.wrote store.inner write) (stamp changed) ∧
        h.journal.wrote store.inner write ≠ .foreign ∧
        ∀ job', next (.taken taken) = some job' → job' ≠ .settling ∧ jobOk (stamp changed) job')
    (hsame : ∀ taken changed, store.indeterminate = false →
      write.run docs store.inner = .ok (taken, changed) → stamp changed = store.inner →
      h.journal.wrote store.inner write = h.journal)
    (hfailed : ∀ e job', next (.failed e) = some job' → job' ≠ .settling ∧ h.journal ≠ .foreign ∧
      (store.indeterminate = false → jobOk store.inner job')) : Inv codec h' := by
  have hfiles := files_up hl
  cases hw with
  | kept hlife hread hjournal =>
    rename_i life dir journal
    have heq : journal = h.journal := by
      obtain heq | ⟨heq, taken, changed, hrun, hst, hi⟩ := hjournal
      · exact heq
      · rw [heq]
        exact hsame taken changed hi hrun hst
    subst heq
    have hdurable : ∀ s, Reads codec dir s → Journaled h.journal s :=
      fun s hs => hinv.durable s (hfiles ▸ hread s hs)
    obtain rfl | ⟨t, e, rfl, hs, hinner, hind, rfl⟩ := hlife
    · exact inv_down hdurable
    · refine inv_of_go hdurable hs fun job' hj => ?_
      rw [hinner, hind]
      exact hfailed e job' hj
  | landed hlife hi hrun hv hread =>
    rename_i life dir taken changed
    obtain ⟨hjd, hknown, -⟩ := hlanded taken changed hi hrun hv
    have hdurable : ∀ s, Reads codec dir s → Journaled (h.journal.wrote store.inner write) s := by
      intro s hs
      rw [hread s hs]
      exact hjd
    obtain rfl | ⟨t, e, rfl, hs, hind, rfl⟩ := hlife
    · exact inv_down hdurable
    · refine inv_of_go hdurable hs fun job' hj => ⟨(hfailed e job' hj).1, hknown, fun hi' => ?_⟩
      rw [hind] at hi'
      cases hi'
  | written ht hs hi hopen hrun hv =>
    rename_i t taken changed
    obtain ⟨hjd, hknown, hjob⟩ := hlanded taken changed hopen hrun hv
    have hdurable : ∀ s, Reads codec t.files s → Journaled (h.journal.wrote store.inner write) s := by
      intro s hread
      have heq := reads_unique hread (reads_iff.2 ⟨_, hs.memory hi⟩)
      rw [heq, ht]
      exact hjd
    refine inv_of_go hdurable hs fun job' hj => ?_
    obtain ⟨hne, hok⟩ := hjob job' hj
    exact ⟨hne, hknown, fun _ => ht ▸ hok⟩

theorem wrote_ne_foreign {journal : Journal} (hj : journal ≠ .foreign) (s : AgentState)
    (write : Write) : journal.wrote s write ≠ .foreign := by
  cases write <;> simp only [Journal.wrote, ne_eq, reduceCtorEq, not_false_eq_true]
  case promoteCandidate | swapActiveWithPrevious =>
    split
    · simp
    · exact hj
  all_goals exact hj

/-- The settling step. -/
theorem Inv.settle {turn : Turn} (hinv : Inv codec h)
    (hstep : h.step codec linux (.settle turn) = some h') : Inv codec h' := by
  simp only [History.step] at hstep
  split at hstep
  · rename_i store hl
    have hi := hinv.opened store hl
    generalize hjob : (if restores store.inner turn.worker = true then Job.restoring Restore.reading
      else Job.idle) = job at hstep
    have hok : ∀ s, job ≠ .settling ∧ jobOk s job := by
      intro s
      rw [← hjob]
      split
      · exact ⟨by simp, trivial⟩
      · exact ⟨by simp, trivial⟩
    split at hstep
    · rename_i hnone
      cases hstep
      have hclean := clean_of_settling hnone
      have hs := hinv.sound store _ hl
      change Inv codec ⟨.go store (some job), .clean⟩
      refine inv_of_go (fun s hread => ?_) hs fun job' hj => ?_
      · have heq := reads_unique hread (reads_iff.2 ⟨_, hs.memory hi⟩)
        rw [heq]
        exact hclean
      · cases hj
        exact ⟨(hok store.inner).1, by simp, fun _ => (hok store.inner).2⟩
    · rename_i write hsome
      cases hstep
      refine inv_of_wrote hinv hl (write_spec h (hinv.sound store _ hl)) ?_ ?_ ?_
      · intro taken changed _ hrun _
        obtain ⟨htx, hc, -, -, -, hclean⟩ := settling_spec hsome hrun
        rw [hclean]
        refine ⟨⟨htx, hc⟩, by simp, fun job' hj => ?_⟩
        cases hj
        exact hok _
      · intro taken changed _ hrun hst
        obtain ⟨-, -, -, -, hne, -⟩ := settling_spec hsome hrun
        exact absurd hst hne
      · intro e job' hj
        cases hj
  · cases hstep

/-- The writes beside the requests, from any job past the settling. -/
theorem Inv.moved {turn : Turn} {store : StateStore} {job : Job} {write : Write}
    {next : Reply → Option Job} (hinv : Inv codec h) (hl : h.life = .up store job)
    (hjob : job ≠ .settling) (hm : write.ofMember = true ∨ ∃ record, write = .nameRestore record)
    (hnext : ∀ reply job', next reply = some job' → job' ≠ .settling ∧
      ∀ s, jobOk s job → jobOk s job') :
    Inv codec (h.write codec linux turn store write next) := by
  have hknown := hinv.known store job hl hjob
  have hsame : h.journal.wrote store.inner write = h.journal := by
    obtain hm | ⟨record, rfl⟩ := hm
    · cases write <;> simp only [Write.ofMember, Bool.false_eq_true] at hm <;> rfl
    · rfl
  refine inv_of_wrote hinv hl (write_spec h (hinv.sound store _ hl)) ?_ ?_ ?_
  · intro taken changed hi hrun hv
    have hmoved := moved_of_member hm hrun hv
    rw [hsame]
    refine ⟨(hinv.memory hl hi).moved hmoved, hknown, fun job' hj => ?_⟩
    obtain ⟨hne, hok⟩ := hnext _ _ hj
    refine ⟨hne, hok _ ?_⟩
    have hold := hinv.job store job hl hi
    cases job with
    | serving r => exact ⟨hold.1.moved hmoved, hold.2.moved hmoved⟩
    | settling => trivial
    | restoring _ => trivial
    | idle => trivial
  · intro _ _ _ _ _
    exact hsame
  · intro e job' hj
    obtain ⟨hne, hok⟩ := hnext _ _ hj
    exact ⟨hne, hknown, fun hi => hok _ (hinv.job store job hl hi)⟩

theorem Restore.job_spec {restore : Restore} {job : Job} (h : restore.job = some job) :
    job ≠ .settling ∧ ∀ s, jobOk s job := by
  cases restore <;> simp only [Restore.job, Option.some.injEq, reduceCtorEq] at h <;>
    (subst h; exact ⟨by simp, fun _ => trivial⟩)

/-- A process that goes on without a write. -/
theorem Inv.asked {store : StateStore} {job : Job} {next : Option Job} (hinv : Inv codec h)
    (hl : h.life = .up store job) (hjob : job ≠ .settling)
    (hnext : ∀ job', next = some job' → job' ≠ .settling ∧
      (store.indeterminate = false → jobOk store.inner job')) :
    Inv codec { h with life := .go store next } := by
  have hfiles := files_up hl
  refine inv_of_go (fun s hs => hinv.durable s (hfiles ▸ hs)) (hinv.sound store _ hl)
    fun job' hj => ?_
  obtain ⟨hne, hok⟩ := hnext job' hj
  exact ⟨hne, hinv.known store job hl hjob, hok⟩

theorem Inv.restore {turn : Turn} (hinv : Inv codec h)
    (hstep : h.step codec linux (.restore turn) = some h') : Inv codec h' := by
  simp only [History.step] at hstep
  split at hstep
  · rename_i store restore hl
    have hask : ∀ reply, Inv codec { h with life := .go store (restore.resume reply).job } := by
      intro reply
      refine hinv.asked hl (by simp) fun job' hj => ?_
      obtain ⟨hne, hok⟩ := Restore.job_spec hj
      exact ⟨hne, fun _ => hok _⟩
    split at hstep
    · cases hstep
    · rename_i write hop
      cases hstep
      refine hinv.moved hl (by simp) (write_of_restore hop) fun reply job' hj => ?_
      obtain ⟨hne, hok⟩ := Restore.job_spec hj
      exact ⟨hne, fun s _ => hok s⟩
    · cases hstep
      exact hask _
    · cases hstep
      exact hask _
  · cases hstep

theorem Inv.arrive {r : Request} (hinv : Inv codec h)
    (hr : r.stage = .entering ∨ ∃ e, r.stage = .finished e) (hstep : h.arrive r = some h') :
    Inv codec h' := by
  unfold History.arrive at hstep
  split at hstep
  · rename_i store job hl
    split at hstep
    · rename_i hfree
      cases hstep
      have hne : job ≠ .settling := by
        rintro rfl
        cases hfree
      change Inv codec { h with life := .go store (some (.serving r)) }
      refine hinv.asked hl hne fun job' hj => ?_
      cases hj
      refine ⟨by simp, fun _ => ⟨(Request.expects_arrived hr).1, fun hst => ?_⟩⟩
      obtain hst | hst := hst <;> rw [hst] at hr <;> simp at hr
    · cases hstep
  · cases hstep

theorem Inv.request {turn : Turn} (hinv : Inv codec h)
    (hstep : h.step codec linux (.request turn) = some h') : Inv codec h' := by
  simp only [History.step] at hstep
  split at hstep
  · rename_i store r hl
    have hknown := hinv.known store _ hl (by simp)
    have hask : ∀ reply, (∀ write, r.op turn.now ≠ .write write) →
        (r.stage = .reading → reply = .state store.inner) →
        Inv codec { h with life := .up store (.serving (r.resume reply)) } := by
      intro reply hop hread
      change Inv codec { h with life := .go store (some (.serving (r.resume reply))) }
      refine hinv.asked hl (by simp) fun job' hj => ?_
      cases hj
      refine ⟨by simp, fun hi => ?_⟩
      obtain ⟨hexp, hfresh⟩ := hinv.job store _ hl hi
      exact ⟨hexp.asked hop reply, hfresh.resume hread⟩
    split at hstep
    · cases hstep
    · rename_i write hop
      cases hstep
      refine inv_of_wrote hinv hl (write_spec h (hinv.sound store _ hl)) ?_ ?_ ?_
      · intro taken changed hi hrun hv
        obtain ⟨hexp, hfresh⟩ := hinv.job store _ hl hi
        have hj := hinv.memory hl hi
        refine ⟨Request.journaled_of_landed hexp hop hj hknown hrun hv, wrote_ne_foreign hknown _ _,
          fun job' hj' => ?_⟩
        cases hj'
        refine ⟨by simp, ?_, Request.fresh_of_late (Request.late_of_write hop (.inl ⟨taken, rfl⟩))⟩
        exact hexp.landed hop (fun _ => hj.not_terminal hknown) (fun hst => hfresh (.inr hst)) hrun hv
      · intro taken changed hi hrun hst
        obtain ⟨hexp, -⟩ := hinv.job store _ hl hi
        exact Request.wrote_of_unchanged hexp hop (hinv.memory hl hi) hknown hrun hst
      · intro e job' hj
        cases hj
        refine ⟨by simp, hknown, fun hi => ?_⟩
        obtain ⟨hexp, -⟩ := hinv.job store _ hl hi
        exact ⟨hexp.refused hop e,
          Request.fresh_of_late (Request.late_of_write hop (.inr ⟨e, rfl⟩))⟩
    · rename_i hop
      cases hstep
      exact hask _ (fun write hw => by rw [hop] at hw; cases hw) fun _ => rfl
    · rename_i hnw hns
      cases hstep
      refine hask _ (fun write hw => hnw write hw) fun hread => ?_
      exact absurd (by simp [Request.op, hread]) hns
  · cases hstep

/-- **Every step keeps the invariant.** -/
theorem Inv.step {a : LifeAction} (hinv : Inv codec h) (hstep : h.step codec linux a = some h') :
    Inv codec h' := by
  cases a with
  | start =>
    simp only [History.step] at hstep
    split at hstep
    · rename_i dir hl
      split at hstep
      · rename_i store hopen
        cases hstep
        have hstore : store.files = dir ∧ store.indeterminate = false := by
          unfold openAt at hopen
          split at hopen
          · cases hopen
            exact ⟨rfl, rfl⟩
          · cases hopen
        have hfiles : h.files = store.files := by
          unfold files
          rw [hl, hstore.1]
        refine ⟨fun s hs => hinv.durable s (hfiles ▸ hs), ?_, ?_, ?_, ?_⟩
        · rintro store' job ⟨⟩
          exact sound_of_openAt hopen
        · rintro store' ⟨⟩
          exact hstore.2
        · rintro store' job ⟨⟩ hne
          exact absurd rfl hne
        · rintro store' job ⟨⟩ -
          trivial
      · cases hstep
    · cases hstep
  | kill =>
    simp only [History.step] at hstep
    split at hstep
    · rename_i store job hl
      cases hstep
      exact inv_down fun s hs => hinv.durable s (files_up hl ▸ hs)
    · cases hstep
  | settle turn => exact hinv.settle hstep
  | restore turn => exact hinv.restore hstep
  | deploy transactionId deploymentId bundlePath labels correlationId streaming =>
    exact hinv.arrive (Request.stage_deploy _ _ _ _ _ _) hstep
  | rollback transactionId correlationId => exact hinv.arrive (.inl rfl) hstep
  | request turn => exact hinv.request hstep
  | member write turn =>
    simp only [History.step] at hstep
    split at hstep
    · cases hstep
    · rename_i store job hne hl
      split at hstep
      · rename_i hm
        cases hstep
        refine hinv.moved hl hne (.inl hm) fun reply job' hj => ?_
        cases hj
        exact ⟨hne, fun _ h => h⟩
      · cases hstep
    · cases hstep

/-- A start opens the store its directory holds. -/
theorem step_start {dir : StateDir} {store : StateStore} {journal : Journal}
    (hopen : openAt codec dir = .ok store) :
    History.step codec linux ⟨.down dir, journal⟩ .start = some ⟨.up store .settling, journal⟩ := by
  simp only [History.step, hopen]

/-- A write none of whose steps fails. -/
theorem write_done (turn : Turn) {store : StateStore} {write : Write} {next : Reply → Option Job}
    {taken : Taken} {s : AgentState} {encoded : String} (hi : store.indeterminate = false)
    (hends : turn.ends = ({}, {}))
    (hn : store.checked codec (write.update turn.docs) = .ok (taken, s, encoded)) :
    h.write codec linux turn store write next =
      ⟨.go ⟨⟨.text encoded, .text encoded⟩, s, true, false⟩ (next (.taken taken)),
        h.journal.wrote store.inner write⟩ := by
  have hwrite : store.writeStateFiles linux encoded (writeOrder s) ({}, {}) =
      (.returned (.ok ()), { store with files := ⟨.text encoded, .text encoded⟩ }) := by
    unfold writeOrder
    split
    · rfl
    · rfl
  have hread : readFiles codec ⟨.text encoded, .text encoded⟩ = .ok (s, true) :=
    readFiles_of_primary (loadOne_encoded (encodeChecked_of_checked hn))
  have hupdate : store.update codec linux (write.update turn.docs) turn.ends =
      (.returned (.ok taken), ⟨⟨.text encoded, .text encoded⟩, s, true, false⟩) := by
    unfold update
    rw [hi, if_neg (by simp), hn, hends]
    dsimp only
    rw [hwrite]
    simp only [hi]
  have hlands : lands codec store (write.update turn.docs)
      ⟨⟨.text encoded, .text encoded⟩, s, true, false⟩ = true := by
    unfold lands
    dsimp only
    rw [hn, hread]
    simp [hi]
  unfold History.write
  dsimp only
  rw [hupdate]
  dsimp only
  rw [hlands, if_pos rfl]

/-! ## What a start leaves -/

/-- A start reads after a write what it read before, or the state
written. -/
theorem Wrote.reads {docs : Documents} {store : StateStore} {write : Write}
    {next : Reply → Option Job} (hw : Wrote codec h docs store write next h') {s : AgentState}
    (hs : Reads codec h'.files s) : Reads codec store.files s ∨
      ∃ taken changed, store.indeterminate = false ∧
        write.run docs store.inner = .ok (taken, changed) ∧ (stamp changed).valid = true ∧
        s = stamp changed := by
  cases hw with
  | kept hlife hread _ =>
    left
    obtain rfl | ⟨t, e, rfl, -, -, -, rfl⟩ := hlife
    · exact hread s hs
    · rw [files_go] at hs
      exact hread s hs
  | landed hlife hi hrun hv hread =>
    refine .inr ⟨_, _, hi, hrun, hv, ?_⟩
    obtain rfl | ⟨t, e, rfl, -, -, rfl⟩ := hlife
    · exact hread s hs
    · rw [files_go] at hs
      exact hread s hs
  | written ht hsound hi hopen hrun hv =>
    refine .inr ⟨_, _, hopen, hrun, hv, ?_⟩
    rw [files_go] at hs
    rw [← ht]
    exact reads_unique hs (reads_iff.2 ⟨_, hsound.memory hi⟩)

/-- **The settling write of a start landed**: the start took its settling
step, and a later start reads the state its write made, if it made one. -/
def Settled (codec : StateCodec) (linux : Bool) (h : History) (turn : Turn) (h' : History) : Prop :=
  h.step codec linux (.settle turn) = some h' ∧
    ∃ store, h.life = .up store .settling ∧
      ∀ write, settling store.inner turn.now = some write →
        ∃ taken next encoded,
          store.checked codec (write.update turn.docs) = .ok (taken, next, encoded) ∧
            Reads codec h'.files next

/-- No transaction is in flight and no candidate recorded, and the records
are as `P` says. -/
def Rests (P : AgentState → Prop) (s : AgentState) : Prop :=
  s.inFlightTransaction = none ∧ s.candidate = none ∧ P s

theorem settling_of_rests {P : AgentState → Prop} {s : AgentState} {now : ℕ} (h : Rests P s) :
    settling s now = none := by
  unfold settling
  rw [h.1, h.2.1]
  rfl

/-- The settling write leaves the records as they were read. -/
theorem Settled.rests {turn : Turn} (hs : Settled codec linux h turn h') (hinv : Inv codec h)
    {P : AgentState → Prop} (hread : ∀ s, Reads codec h.files s → P s)
    (hP : ∀ s s', P s → s'.active = s.active → s'.previousActive = s.previousActive → P s')
    {s : AgentState} (hs' : Reads codec h'.files s) : Rests P s := by
  obtain ⟨hstep, store, hl, hlands⟩ := hs
  have hi := hinv.opened store hl
  have hbefore : Reads codec store.files store.inner :=
    reads_iff.2 ⟨_, (hinv.sound store _ hl).memory hi⟩
  have hfiles := files_up hl
  have hpin := hread _ (hfiles ▸ hbefore)
  cases hw : settling store.inner turn.now with
  | none =>
    simp only [History.step, hl, hw, Option.some.injEq] at hstep
    subst hstep
    have heq := reads_unique hs' hbefore
    obtain ⟨htx, hc⟩ := clean_of_settling hw
    rw [heq]
    exact ⟨htx, hc, hpin⟩
  | some write =>
    obtain ⟨taken, next, encoded, hn, hnext⟩ := hlands write hw
    obtain ⟨changed, hrun, rfl, -⟩ := run_of_checked hn
    obtain ⟨htx, hc, ha, hp, -, -⟩ := settling_spec hw hrun
    rw [reads_unique hs' hnext]
    exact ⟨htx, hc, hP _ _ hpin ha hp⟩

/-- **What rests stays** through every step that is not a request's. -/
theorem rests_of_step {a : LifeAction} {P : AgentState → Prop} (hinv : Inv codec h)
    (hP : ∀ s s', P s → Moved s s' → P s') (hstep : h.step codec linux a = some h')
    (ha : ∀ turn, a ≠ .request turn) (hread : ∀ s, Reads codec h.files s → Rests P s)
    {s : AgentState} (hs : Reads codec h'.files s) : Rests P s := by
  -- a write beside the requests
  have hmoved : ∀ (store : StateStore) (job : Job) (write : Write) (turn : Turn)
      (next : Reply → Option Job), h.life = .up store job →
      (write.ofMember = true ∨ ∃ record, write = .nameRestore record) →
      h' = h.write codec linux turn store write next → Rests P s := by
    intro store job write turn next hl hm heq
    subst heq
    have hsound := hinv.sound store job hl
    obtain hold | ⟨taken, changed, hi, hrun, hv, rfl⟩ := (write_spec h hsound).reads hs
    · exact hread s (files_up hl ▸ hold)
    · have hbefore : Reads codec store.files store.inner := reads_iff.2 ⟨_, hsound.memory hi⟩
      obtain ⟨htx, hc, hp⟩ := hread _ (files_up hl ▸ hbefore)
      have hmv := moved_of_member hm hrun hv
      exact ⟨hmv.inFlight.trans htx, hmv.candidate.trans hc, hP _ _ hp hmv⟩
  cases a with
  | start =>
    simp only [History.step] at hstep
    split at hstep
    · rename_i dir hl
      split at hstep
      · rename_i store hopen
        cases hstep
        have hfiles : store.files = h.files := by
          unfold openAt at hopen
          split at hopen
          · cases hopen
            unfold files
            rw [hl]
          · cases hopen
        exact hread s (hfiles ▸ hs)
      · cases hstep
    · cases hstep
  | kill =>
    simp only [History.step] at hstep
    split at hstep
    · rename_i store job hl
      cases hstep
      exact hread s (files_up hl ▸ hs)
    · cases hstep
  | settle turn =>
    simp only [History.step] at hstep
    split at hstep
    · rename_i store hl
      have hi := hinv.opened store hl
      have hbefore : Reads codec store.files store.inner :=
        reads_iff.2 ⟨_, (hinv.sound store _ hl).memory hi⟩
      rw [settling_of_rests (hread _ (files_up hl ▸ hbefore))] at hstep
      cases hstep
      exact hread s (files_up hl ▸ hs)
    · cases hstep
  | restore turn =>
    simp only [History.step] at hstep
    split at hstep
    · rename_i store restore hl
      split at hstep
      · cases hstep
      · rename_i write hop
        cases hstep
        exact hmoved store _ write turn _ hl (write_of_restore hop) rfl
      · cases hstep
        rw [files_go] at hs
        exact hread s (files_up hl ▸ hs)
      · cases hstep
        rw [files_go] at hs
        exact hread s (files_up hl ▸ hs)
    · cases hstep
  | deploy transactionId deploymentId bundlePath labels correlationId streaming =>
    exact hread s (files_of_arrive hstep ▸ hs)
  | rollback transactionId correlationId => exact hread s (files_of_arrive hstep ▸ hs)
  | request turn => exact absurd rfl (ha turn)
  | member write turn =>
    simp only [History.step] at hstep
    split at hstep
    · cases hstep
    · rename_i store job hne hl
      split at hstep
      · rename_i hm
        cases hstep
        exact hmoved store job write turn _ hl (.inl hm) rfl
      · cases hstep
    · cases hstep

/-- What a transaction leaves is said of the two records. -/
theorem outcome_congr {entry : Entry} {s s' : AgentState} (hout : entry.Outcome s)
    (ha : s'.active = s.active) (hp : s'.previousActive = s.previousActive) : entry.Outcome s' := by
  unfold Entry.Outcome at hout ⊢
  rw [ha, hp]
  exact hout

/-- The life of an agent from a directory it finds. -/
def first (dir : StateDir) : History := ⟨.down dir, .foreign⟩

theorem inv_of_run {dir : StateDir} (hrun : Lib.Run (History.step codec linux) Lib.Free (first dir) h) :
    Inv codec h :=
  hrun.invariant (inv_down fun _ _ => trivial) fun _ _ _ hinv _ hstep => hinv.step hstep

/-- **A start settles what it finds.** Whatever requests were run one at a
time, whatever restarts re-stamped in between, wherever writes failed and
the process was killed: `committed` holds of the transaction left in
flight exactly when its commit write landed; and once a start's settling
write landed no transaction is in flight and no candidate recorded, and
the records are those the transaction began on if its commit write did not
land, and those it wrote if it did, up to a later generation of the active
record. -/
theorem start_settles (codec : StateCodec) (linux : Bool) {dir : StateDir} {h h₁ h₂ : History}
    {turn : Turn} (hrun : Lib.Run (History.step codec linux) Lib.Free (first dir) h)
    (hsettled : Settled codec linux h turn h₁)
    (hrest : Lib.Run (History.step codec linux) (fun _ a => ∀ turn, a ≠ .request turn) h₁ h₂) :
    (∀ s entry, Reads codec h.files s → h.journal = .opened entry →
      ∃ tx, s.inFlightTransaction = some tx ∧ tx.kind = entry.kind ∧
        (committed s tx = true ↔ entry.landedOn.isSome = true)) ∧
    ∀ s, Reads codec h₂.files s →
      s.inFlightTransaction = none ∧ s.candidate = none ∧
        ∀ entry, h.journal = .opened entry → entry.Outcome s := by
  have hinv := inv_of_run hrun
  refine ⟨fun s entry hread hj => ?_, ?_⟩
  · have hjd := hinv.durable s hread
    rw [hj] at hjd
    obtain ⟨-, hfly⟩ := hjd
    obtain ⟨tx, htx, hkind, -⟩ := id hfly
    exact ⟨tx, htx, hkind, hfly.committed_iff htx⟩
  · -- the outcome holds of what the start found, and nothing after it moves the records
    let P : AgentState → Prop := fun s => ∀ entry, h.journal = .opened entry → entry.Outcome s
    have hfound : ∀ s, Reads codec h.files s → P s := by
      intro s hread entry hj
      have hjd := hinv.durable s hread
      rw [hj] at hjd
      exact hjd.1
    have hfirst : ∀ s, Reads codec h₁.files s → Rests P s := fun s hs =>
      hsettled.rests hinv hfound (fun _ _ hP ha hp entry hj => outcome_congr (hP entry hj) ha hp) hs
    have hkeep : Inv codec h₂ ∧ ∀ s, Reads codec h₂.files s → Rests P s := by
      refine hrest.invariant (I := fun h => Inv codec h ∧ ∀ s, Reads codec h.files s → Rests P s)
        ⟨hinv.step hsettled.1, hfirst⟩ ?_
      rintro g a g' ⟨hg, hread⟩ ha hstep
      refine ⟨hg.step hstep, fun s hs => rests_of_step hg ?_ hstep ha hread hs⟩
      intro s s' hP hm entry hj
      exact (hP entry hj).moved hm
    exact hkeep.2

end History

/-! ## An interrupted deploy -/

namespace History

/-- Documents of an agent that deploys bundles without descriptors. -/
def noDocuments : Documents where
  read _ _ := .error "missing"
  digest _ _ := .error "missing"
  derive _ _ := .error (.unsupported, "no profile is installed")
  writeFails _ _ := none

/-- The transaction of a deploy that has begun. -/
def begunTransaction : TransactionRecord :=
  { transactionId := "t1"
    deploymentId := "asr"
    phase := .received
    kind := .deploy
    bundlePath := some "/asr"
    startedMonotonicNs := some 7
    lastTransitionMonotonicNs := some 7 }

def begun : AgentState := { storeVersion := 2, inFlightTransaction := some begunTransaction }

/-- What the next start makes of it. -/
def settledBegun : AgentState :=
  { storeVersion := 3
    lastError := some (interrupted begunTransaction)
    quarantined :=
      [{ transactionId := "t1"
         deploymentId := "asr"
         phase := .received
         error := interrupted begunTransaction
         quarantinedMonotonicNs := some 9 }] }

/-- The two states as the store writes them. -/
def begunText : String :=
  "\x7b" ++ ("\n  \"schema_version\": \"0.1\",\n  \"store_version\": 2,\n" ++
    "  \"in_flight_transaction\": \x7b\n    \"transaction_id\": \"t1\",\n" ++
    "    \"deployment_id\": \"asr\",\n    \"phase\": \"received\",\n    \"kind\": \"deploy\",\n" ++
    "    \"bundle_path\": \"/asr\",\n    \"started_monotonic_ns\": 7,\n" ++
    "    \"last_transition_monotonic_ns\": 7\n  \x7d\n\x7d")

def settledText : String :=
  let message := "deploy transaction `t1` of `asr` was interrupted at `received`, " ++
    "before its commit, and ended at the next start"
  "\x7b" ++ ("\n  \"schema_version\": \"0.1\",\n  \"store_version\": 3,\n" ++
    "  \"last_error\": \x7b\n    \"code\": \"internal\",\n    \"message\": \"" ++ message ++ "\",\n" ++
    "    \"context\": \"startup_recovery\"\n  \x7d,\n" ++
    "  \"quarantined\": [\n    \x7b\n      \"transaction_id\": \"t1\",\n" ++
    "      \"deployment_id\": \"asr\",\n      \"phase\": \"received\",\n      \"error\": \x7b\n" ++
    "        \"code\": \"internal\",\n        \"message\": \"" ++ message ++ "\",\n" ++
    "        \"context\": \"startup_recovery\"\n      \x7d,\n" ++
    "      \"quarantined_monotonic_ns\": 9\n    \x7d\n  ]\n\x7d")

theorem isBlank_brace (rest : String) : isBlank ("\x7b" ++ rest) = false := by
  rw [isBlank, String.toList_append, List.all_append]
  rfl

/-- The JSON encoding, as far as a deploy interrupted after its begin
reads and writes it. -/
def begunCodec : StateCodec where
  encode s :=
    if s = begun then .ok begunText
    else if s = settledBegun then .ok settledText
    else .error "not written"
  parse raw :=
    if raw = begunText then .ok begun
    else if raw = settledText then .ok settledBegun
    else .error (.malformed "not read")
  parse_blank := by
    intro raw s hb
    split
    · rename_i heq
      rw [heq, begunText, isBlank_brace] at hb
      cases hb
    · split
      · rename_i heq
        rw [heq, settledText, isBlank_brace] at hb
        cases hb
      · simp

theorem encode_begun : begunCodec.encodeChecked begun = .ok begunText := by
  simp only [StateCodec.encodeChecked, StateCodec.decode, begunCodec, if_true]
  rw [if_pos (by decide)]
  exact if_pos rfl

theorem encode_settledBegun : begunCodec.encodeChecked settledBegun = .ok settledText := by
  have hne : settledText ≠ begunText := by decide +kernel
  have hs : settledBegun ≠ begun := by decide
  simp only [StateCodec.encodeChecked, StateCodec.decode, begunCodec, if_neg hne, if_neg hs, if_true]
  rw [if_pos (by decide)]
  exact if_pos rfl

/-- The first store of the agent, and the one its second start opens. -/
def opened : StateStore := ⟨⟨.missing, .missing⟩, AgentState.fresh, false, false⟩

def reopened : StateStore := ⟨⟨.text begunText, .text begunText⟩, begun, true, false⟩

/-- The agent once the second start has opened its store. -/
def restarted : History :=
  ⟨.up reopened .settling, .opened { kind := .deploy, before := AgentState.fresh }⟩

theorem checked_begun :
    opened.checked begunCodec (Write.update noDocuments (.beginTransaction begunTransaction)) =
      .ok (.nothing, begun, begunText) := by
  have hnext : stamp { AgentState.fresh with inFlightTransaction := some begunTransaction } = begun :=
    rfl
  unfold checked
  rw [show (Write.update noDocuments (.beginTransaction begunTransaction)).run opened.inner =
    .ok (.nothing, { AgentState.fresh with inFlightTransaction := some begunTransaction }) from rfl]
  dsimp only
  rw [hnext, encode_begun]
  rfl

theorem checked_settledBegun :
    reopened.checked begunCodec
        (Write.update noDocuments (.quarantineInFlight (interrupted begunTransaction) 9)) =
      .ok (.nothing, settledBegun, settledText) := by
  have hnext : stamp { settledBegun with storeVersion := 2 } = settledBegun := rfl
  unfold checked
  rw [show (Write.update noDocuments
    (.quarantineInFlight (interrupted begunTransaction) 9)).run reopened.inner =
    .ok (.nothing, { settledBegun with storeVersion := 2 }) from rfl]
  dsimp only
  rw [hnext, encode_settledBegun]
  rfl

/-- A new agent begins a deploy, is killed and starts again. -/
theorem run_restarted :
    Lib.Run (History.step begunCodec true) Lib.Free (first ⟨.missing, .missing⟩) restarted := by
  let r : Request := { Request.deploy "t1" "asr" "/asr" with stage := .beginning }
  let entry : Entry := { kind := .deploy, before := AgentState.fresh }
  let turn : Turn := { docs := noDocuments, now := 7 }
  have harrived : Lib.exec (History.step begunCodec true) (first ⟨.missing, .missing⟩)
      [.start, .settle { docs := noDocuments }, .deploy "t1" "asr" "/asr" [] none false,
        .request { docs := noDocuments, reply := .answered false }] =
      some ⟨.up opened (.serving r), .clean⟩ := rfl
  have hbegun : History.step begunCodec true ⟨.up opened (.serving r), .clean⟩
      (.request turn) =
      some ⟨.up reopened (.serving (r.resume (.taken .nothing))), .opened entry⟩ := by
    change some (History.write begunCodec true _ turn opened (.beginTransaction begunTransaction) _) = _
    rw [write_done turn rfl rfl checked_begun]
    rfl
  have hkilled : History.step begunCodec true
      ⟨.up reopened (.serving (r.resume (.taken .nothing))), .opened entry⟩ .kill =
      some ⟨.down reopened.files, .opened entry⟩ := rfl
  have hreopened : History.step begunCodec true ⟨.down reopened.files, .opened entry⟩ .start =
      some restarted := by
    have hread : readFiles begunCodec reopened.files = .ok (begun, true) :=
      readFiles_of_primary (loadOne_encoded encode_begun)
    have hopen : openAt begunCodec reopened.files = .ok reopened := by
      rw [openAt, hread]
      rfl
    exact step_start hopen
  exact (((Lib.Run.of_exec harrived).tail trivial hbegun).tail trivial hkilled).tail trivial hreopened

theorem killed_deploy_settles :
    settledBegun.inFlightTransaction = none ∧ settledBegun.candidate = none ∧
      ({ kind := .deploy, before := AgentState.fresh } : Entry).Outcome settledBegun := by
  let turn : Turn := { docs := noDocuments, now := 9 }
  let settled : History :=
    ⟨.up ⟨⟨.text settledText, .text settledText⟩, settledBegun, true, false⟩ .idle, .clean⟩
  have hstep : restarted.step begunCodec true (.settle turn) = some settled := by
    change some (History.write begunCodec true _ turn reopened
      (.quarantineInFlight (interrupted begunTransaction) 9) _) = _
    rw [write_done turn rfl rfl checked_settledBegun]
    rfl
  have hread : Reads begunCodec settled.files settledBegun :=
    reads_iff.2 ⟨true, readFiles_of_primary (loadOne_encoded encode_settledBegun)⟩
  have hsettled : Settled begunCodec true restarted turn settled := by
    refine ⟨hstep, reopened, rfl, fun write hw => ?_⟩
    have heq : write = .quarantineInFlight (interrupted begunTransaction) 9 :=
      (Option.some.inj hw).symm
    subst heq
    exact ⟨.nothing, settledBegun, settledText, checked_settledBegun, hread⟩
  obtain ⟨htx, hc, hout⟩ :=
    (start_settles begunCodec true run_restarted hsettled .refl).2 settledBegun hread
  exact ⟨htx, hc, hout _ rfl⟩

end History

end Agent

end Tensorplate
