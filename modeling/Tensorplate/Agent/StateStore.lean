import Tensorplate.Agent.Model.StateStore

/-!
# What the next start reads

An open store that is not indeterminate holds in memory what a start
would read of its files (`Sound`). A write passes through three
directories: the one it found, the one after its first rename and the one
after both. `writeStateFiles_cases` says in which of them it ends and how;
which of the two states a start reads there follows from where the commit
rename is.
-/

namespace Tensorplate

namespace Agent

variable {codec : StateCodec} {linux : Bool}

/-- A start on the directory opens the store with this state. -/
def Reads (codec : StateCodec) (dir : StateDir) (s : AgentState) : Prop :=
  ∃ store, StateStore.openAt codec dir = .ok store ∧ store.inner = s

theorem reads_iff {dir : StateDir} {s : AgentState} :
    Reads codec dir s ↔ ∃ b, readFiles codec dir = .ok (s, b) := by
  constructor
  · rintro ⟨store, ho, rfl⟩
    unfold StateStore.openAt at ho
    split at ho
    · rename_i inner b hr
      simp only [Except.ok.injEq] at ho
      exact ⟨b, by rw [hr, ← ho]⟩
    · cases ho
  · rintro ⟨b, hr⟩
    exact ⟨⟨dir, s, b, false⟩, by rw [StateStore.openAt, hr], rfl⟩

/-! ## One file -/

/-- A checked encoding reads back as the state it was made from. -/
theorem StateCodec.decode_of_encodeChecked {s : AgentState} {text : String}
    (h : codec.encodeChecked s = .ok text) : codec.decode text = .ok s := by
  unfold StateCodec.encodeChecked at h
  split at h
  · cases h
  · split at h
    · rename_i decoded hd
      split at h
      · rename_i heq
        simp only [Except.ok.injEq] at h
        rw [← h, hd, heq]
      · cases h
    · cases h

theorem StateCodec.not_blank_of_decode {s : AgentState} {text : String}
    (h : codec.decode text = .ok s) : isBlank text = false := by
  by_contra hb
  rw [Bool.not_eq_false] at hb
  unfold StateCodec.decode at h
  split at h
  · cases h
  · rename_i s' hp
    exact codec.parse_blank text s' hb hp

/-- What the reader accepts passes the state's own checks. -/
theorem StateCodec.valid_of_decode {s : AgentState} {text : String}
    (h : codec.decode text = .ok s) : s.valid = true := by
  unfold StateCodec.decode at h
  split at h
  · cases h
  · split at h
    · rename_i hv
      simp only [Except.ok.injEq] at h
      exact h ▸ hv
    · cases h

/-- The file a checked write leaves loads as the state written. -/
theorem loadOne_encoded {s : AgentState} {text : String}
    (h : codec.encodeChecked s = .ok text) : loadOne codec (.text text) = .ok (some s) := by
  have hd := StateCodec.decode_of_encodeChecked h
  rw [loadOne, if_neg (by rw [StateCodec.not_blank_of_decode hd]; simp), hd]

/-! ## The pair -/

/-- The primary is what a start reads whenever it loads. -/
theorem readFiles_of_primary {dir : StateDir} {s : AgentState}
    (h : loadOne codec dir.primary = .ok (some s)) : readFiles codec dir = .ok (s, true) := by
  rw [readFiles, h]

theorem primary_of_readFiles {dir : StateDir} {s : AgentState}
    (h : readFiles codec dir = .ok (s, true)) : loadOne codec dir.primary = .ok (some s) := by
  unfold readFiles at h
  split at h
  · rename_i s' hs
    simp only [Except.ok.injEq, Prod.mk.injEq, and_true] at h
    rw [hs, h]
  · split at h <;> simp at h
  · split at h
    · split at h <;> simp at h
    · cases h

/-- Beside a primary that no start reads, a backup that loads is what a
start reads. -/
theorem readFiles_of_backup {dir : StateDir} {s next : AgentState} {file : StateFile}
    (h : readFiles codec dir = .ok (s, false)) (hb : loadOne codec file = .ok (some next)) :
    readFiles codec { dir with backup := file } = .ok (next, false) := by
  unfold readFiles at h ⊢
  split at h
  · simp at h
  · rename_i hp
    simp only [hp, hb]
  · rename_i e hp
    split at h
    · rename_i ha
      simp only [hp, hb, ha, if_true]
    · cases h

/-! ## How a write ends -/

namespace StateStore

/-- The directory after a file of the pair was renamed into place. -/
def after (store : StateStore) (encoded : String) (step : WriteStep) : StateDir :=
  StateDir.renamed store.files encoded step

/-- The call returned an error, and not that it cannot tell the outcome. -/
def Refused {α : Type} (r : CallEnd α) : Prop :=
  ∃ e, r = .returned (.error e) ∧ e.isIndeterminate = false

/-- The call returned `StateIndeterminate`. -/
def Undecided {α : Type} (r : CallEnd α) : Prop :=
  ∃ e, r = .returned (.error e) ∧ e.isIndeterminate = true

/-- **The three places a write of the pair can end**, with the result it
has there: before its first rename, between the two renames, after both. -/
inductive WriteEnds (store : StateStore) (encoded : String) (first second commit : WriteStep) :
    CallEnd Unit → StateStore → Prop
  | before {r : CallEnd Unit} (hr : r = .killed ∨ Refused r) :
      WriteEnds store encoded first second commit r store
  | killedBetween :
      WriteEnds store encoded first second commit .killed
        { store with files := store.after encoded first }
  | refusedBetween {r : CallEnd Unit} (hr : Refused r) (hc : first ≠ commit) :
      WriteEnds store encoded first second commit r
        { store with files := store.after encoded first }
  | undecidedBetween {r : CallEnd Unit} (hr : Undecided r) (hc : first = commit) :
      WriteEnds store encoded first second commit r
        { store with files := store.after encoded first, indeterminate := true }
  | killedAfter :
      WriteEnds store encoded first second commit .killed
        { store with files := StateDir.renamed (store.after encoded first) encoded second }
  | undecidedAfter {r : CallEnd Unit} (hr : Undecided r) :
      WriteEnds store encoded first second commit r
        { store with
          files := StateDir.renamed (store.after encoded first) encoded second
          indeterminate := true }
  | written :
      WriteEnds store encoded first second commit (.returned (.ok ()))
        { store with files := StateDir.renamed (store.after encoded first) encoded second }

/-- A step that fails before the commit rename leaves the store writable. -/
theorem failed_before (store : StateStore) (reason : String) :
    ∃ r, store.failed false (.io reason) = (r, store) ∧ Refused r :=
  ⟨_, rfl, _, rfl, rfl⟩

/-- From the commit rename on a step that fails ends the store's writes. -/
theorem failed_committed (store : StateStore) (e : AgentError) :
    ∃ r, store.failed true e = (r, { store with indeterminate := true }) ∧ Undecided r :=
  ⟨_, rfl, _, rfl, rfl⟩

/-- A step that fails between the renames: whether the first was the
commit decides how. -/
theorem WriteEnds.of_failed {store : StateStore} {encoded : String}
    {first second commit : WriteStep} {reason : String} {r : CallEnd Unit} {t : StateStore}
    (h : StateStore.failed { store with files := store.after encoded first } (first == commit)
      (.io reason) = (r, t)) : WriteEnds store encoded first second commit r t := by
  by_cases hf : first = commit
  · rw [beq_iff_eq.2 hf] at h
    obtain ⟨r', hr', hu⟩ := failed_committed { store with files := store.after encoded first }
      (.io reason)
    rw [hr', Prod.mk.injEq] at h
    obtain ⟨rfl, rfl⟩ := h
    exact .undecidedBetween hu hf
  · rw [beq_eq_false_iff_ne.2 hf] at h
    obtain ⟨r', hr', hu⟩ := failed_before { store with files := store.after encoded first } reason
    rw [hr', Prod.mk.injEq] at h
    obtain ⟨rfl, rfl⟩ := h
    exact .refusedBetween hu hf

/-- The loop's second turn, with the first rename done. -/
theorem writeSteps_second {store : StateStore} {encoded : String} {syncs : Bool}
    {first second commit : WriteStep} {ends : FileSteps} {r : CallEnd Unit} {t : StateStore}
    (hc : first = commit ∨ second = commit)
    (h : writeSteps encoded syncs commit [(second, ends)] (first == commit)
      { store with files := store.after encoded first } = (r, t)) :
    WriteEnds store encoded first second commit r t := by
  have hcommitted : (first == commit || second == commit) = true := by
    rw [Bool.or_eq_true, beq_iff_eq, beq_iff_eq]
    exact hc
  rw [writeSteps] at h
  split at h
  · simp only [Prod.mk.injEq] at h
    obtain ⟨rfl, rfl⟩ := h
    exact .killedBetween
  · exact .of_failed h
  · split at h
    · simp only [Prod.mk.injEq] at h
      obtain ⟨rfl, rfl⟩ := h
      exact .killedBetween
    · exact .of_failed h
    · dsimp only at h
      rw [hcommitted] at h
      split at h
      · simp only [Prod.mk.injEq] at h
        obtain ⟨rfl, rfl⟩ := h
        exact .killedAfter
      · split at h
        · obtain ⟨r', hr', hu⟩ := failed_committed
            { store with files := StateDir.renamed (store.after encoded first) encoded second }
            (.io "sync")
          rw [hr', Prod.mk.injEq] at h
          obtain ⟨rfl, rfl⟩ := h
          exact .undecidedAfter hu
        · rw [writeSteps, Prod.mk.injEq] at h
          obtain ⟨rfl, rfl⟩ := h
          exact .written
      · rw [writeSteps, Prod.mk.injEq] at h
        obtain ⟨rfl, rfl⟩ := h
        exact .written

/-- **A write of the pair ends in one of the three places.** -/
theorem writeSteps_cases {store : StateStore} {encoded : String} {syncs : Bool}
    {first second commit : WriteStep} {ends₁ ends₂ : FileSteps} {r : CallEnd Unit} {t : StateStore}
    (hc : first = commit ∨ second = commit)
    (h : writeSteps encoded syncs commit [(first, ends₁), (second, ends₂)] false store = (r, t)) :
    WriteEnds store encoded first second commit r t := by
  have hbefore : ∀ e : String, store.failed false (.io e) = (r, t) →
      WriteEnds store encoded first second commit r t := by
    intro e he
    obtain ⟨r', hr', hu⟩ := failed_before store e
    rw [hr', Prod.mk.injEq] at he
    obtain ⟨rfl, rfl⟩ := he
    exact .before (.inr hu)
  rw [writeSteps] at h
  split at h
  · simp only [Prod.mk.injEq] at h
    obtain ⟨rfl, rfl⟩ := h
    exact .before (.inl rfl)
  · exact hbefore _ h
  · split at h
    · simp only [Prod.mk.injEq] at h
      obtain ⟨rfl, rfl⟩ := h
      exact .before (.inl rfl)
    · exact hbefore _ h
    · dsimp only at h
      rw [Bool.false_or] at h
      split at h
      · simp only [Prod.mk.injEq] at h
        obtain ⟨rfl, rfl⟩ := h
        exact .killedBetween
      · split at h
        · exact .of_failed h
        · exact writeSteps_second hc h
      · exact writeSteps_second hc h

/-! ## How an update ends -/

/-- **A store whose memory is what a start would read.** An indeterminate
store promises nothing of its memory, but a start still reads its files. -/
structure Sound (codec : StateCodec) (store : StateStore) : Prop where
  memory : store.indeterminate = false →
    readFiles codec store.files = .ok (store.inner, store.primaryIsRead)
  readable : ∃ s, Reads codec store.files s

/-- **How an update ends**, by what a start reads afterwards. -/
inductive UpdateEnds {α : Type} (codec : StateCodec) (store : StateStore) (f : StateUpdate α) :
    CallEnd α → StateStore → Prop
  /-- The store refuses every write. -/
  | closed {r : CallEnd α} (hi : store.indeterminate = true) (hr : Undecided r) :
      UpdateEnds codec store f r store
  /-- It did not commit. -/
  | kept {r : CallEnd α} {files : StateDir} (hi : store.indeterminate = false)
      (hr : r = .killed ∨ Refused r)
      (hread : readFiles codec files = .ok (store.inner, store.primaryIsRead)) :
      UpdateEnds codec store f r { store with files := files }
  /-- It committed and the caller was not told so. -/
  | landed {r : CallEnd α} {files : StateDir} {outcome : α} {next : AgentState} {encoded : String}
      {undecided primaryIsRead : Bool} (hi : store.indeterminate = false)
      (hn : store.checked codec f = .ok (outcome, next, encoded))
      (hr : r = .killed ∨ Undecided r ∧ undecided = true)
      (hread : readFiles codec files = .ok (next, primaryIsRead)) :
      UpdateEnds codec store f r { store with files := files, indeterminate := undecided }
  /-- It committed and returned. -/
  | written {files : StateDir} {outcome : α} {next : AgentState} {encoded : String}
      (hi : store.indeterminate = false)
      (hn : store.checked codec f = .ok (outcome, next, encoded))
      (hread : readFiles codec files = .ok (next, true)) :
      UpdateEnds codec store f (.returned (.ok outcome))
        { store with files := files, inner := next, primaryIsRead := true }

/-- What `update` writes has passed `encode_checked`. -/
theorem encodeChecked_of_checked {α : Type} {store : StateStore} {f : StateUpdate α} {outcome : α}
    {next : AgentState} {encoded : String}
    (h : store.checked codec f = .ok (outcome, next, encoded)) :
    codec.encodeChecked next = .ok encoded := by
  unfold checked at h
  split at h
  · cases h
  · dsimp only at h
    split at h
    · cases h
    · split at h
      · cases h
      · rename_i hc
        simp only [Except.ok.injEq, Prod.mk.injEq] at h
        obtain ⟨-, rfl, rfl⟩ := h
        exact hc

/-- Before the write an update ends only with errors of its own. -/
theorem isIndeterminate_of_checked {α : Type} {store : StateStore} {f : StateUpdate α}
    {e : AgentError} (h : store.checked codec f = .error e) : e.isIndeterminate = false := by
  unfold checked at h
  split at h
  · rename_i e' hf
    cases h
    exact f.own_error _ _ hf
  · dsimp only at h
    split at h
    · cases h
      rfl
    · split at h
      · rename_i e' he
        cases h
        unfold StateCodec.encodeChecked at he
        split at he
        · cases he
          rfl
        · split at he
          · split at he
            · cases he
            · cases he
              rfl
          · cases he
            rfl
      · cases h

/-- **Where the commit rename of a write is.** A write of the legacy
version commits at its first rename, the primary's; a later version
commits at its first rename, the backup's, when no start reads the
primary, and at its second otherwise. -/
theorem writeStateFiles_ends {store t : StateStore} {next : AgentState} {encoded : String}
    {ends : FileSteps × FileSteps} {r : CallEnd Unit}
    (h : store.writeStateFiles linux encoded (writeOrder next) ends = (r, t)) :
    (next.schemaVersion = .legacy ∧ WriteEnds store encoded .primary .backup .primary r t) ∨
      (next.schemaVersion ≠ .legacy ∧ store.primaryIsRead = true ∧
        WriteEnds store encoded .backup .primary .primary r t) ∨
      (next.schemaVersion ≠ .legacy ∧ store.primaryIsRead = false ∧
        WriteEnds store encoded .backup .primary .backup r t) := by
  obtain ⟨ends₁, ends₂⟩ := ends
  unfold writeStateFiles writeOrder at h
  split at h
  · rename_i hv
    exact .inl ⟨hv, writeSteps_cases (.inl rfl) h⟩
  · rename_i hv
    right
    cases hp : store.primaryIsRead with
    | true =>
      rw [hp] at h
      exact .inl ⟨hv, rfl, writeSteps_cases (.inr rfl) h⟩
    | false =>
      rw [hp] at h
      exact .inr ⟨hv, rfl, writeSteps_cases (.inl rfl) h⟩

/-- **What a start reads where a write ended**: before its commit rename
the state the store held, from it on the state written. -/
inductive WriteReads (codec : StateCodec) (store : StateStore) (next : AgentState) :
    CallEnd Unit → StateStore → Prop
  | kept {r : CallEnd Unit} {files : StateDir} (hr : r = .killed ∨ Refused r)
      (hread : readFiles codec files = .ok (store.inner, store.primaryIsRead)) :
      WriteReads codec store next r { store with files := files }
  | landed {r : CallEnd Unit} {files : StateDir} {undecided primaryIsRead : Bool}
      (hr : r = .killed ∨ Undecided r ∧ undecided = true)
      (hread : readFiles codec files = .ok (next, primaryIsRead)) :
      WriteReads codec store next r
        { store with files := files, indeterminate := undecided }
  | written {files : StateDir} (hread : readFiles codec files = .ok (next, true)) :
      WriteReads codec store next (.returned (.ok ())) { store with files := files }

/-- A write reads as its place says, once the three directories do. -/
theorem WriteReads.of_ends {store t : StateStore} {next : AgentState} {encoded : String}
    {first second commit : WriteStep} {r : CallEnd Unit} {b : Bool}
    (hends : WriteEnds store encoded first second commit r t) (hi : store.indeterminate = false)
    (hbefore : readFiles codec store.files = .ok (store.inner, store.primaryIsRead))
    (hbetween : readFiles codec (store.after encoded first) =
      if first = commit then .ok (next, b) else .ok (store.inner, store.primaryIsRead))
    (hafter : readFiles codec (StateDir.renamed (store.after encoded first) encoded second) =
      .ok (next, true)) :
    WriteReads codec store next r t := by
  have hself : ∀ files, ({ store with files := files } : StateStore) =
      { store with files := files, indeterminate := false } := by
    intro files
    rw [← hi]
  cases hends with
  | before hr =>
    change WriteReads codec store next r { store with files := store.files }
    exact .kept hr hbefore
  | killedBetween =>
    by_cases hc : first = commit
    · rw [if_pos hc] at hbetween
      rw [hself]
      exact .landed (.inl rfl) hbetween
    · rw [if_neg hc] at hbetween
      exact .kept (.inl rfl) hbetween
  | refusedBetween hr hc =>
    rw [if_neg hc] at hbetween
    exact .kept (.inr hr) hbetween
  | undecidedBetween hr hc =>
    rw [if_pos hc] at hbetween
    exact .landed (.inr ⟨hr, rfl⟩) hbetween
  | killedAfter =>
    rw [hself]
    exact .landed (.inl rfl) hafter
  | undecidedAfter hr => exact .landed (.inr ⟨hr, rfl⟩) hafter
  | written => exact .written hafter

/-- **Every write, wherever it ends, leaves a start one of two states.** -/
theorem writeStateFiles_reads {store t : StateStore} {next : AgentState} {encoded : String}
    {ends : FileSteps × FileSteps} {r : CallEnd Unit} (hs : Sound codec store)
    (hi : store.indeterminate = false) (henc : codec.encodeChecked next = .ok encoded)
    (h : store.writeStateFiles linux encoded (writeOrder next) ends = (r, t)) :
    WriteReads codec store next r t := by
  have hmem := hs.memory hi
  have hload := loadOne_encoded henc
  obtain ⟨-, hends⟩ | ⟨-, hp, hends⟩ | ⟨-, hp, hends⟩ := writeStateFiles_ends h
  · -- the primary first: its rename is the commit
    refine .of_ends (b := true) hends hi hmem ?_ ?_
    · rw [if_pos rfl]
      exact readFiles_of_primary hload
    · exact readFiles_of_primary hload
  · -- the backup first, beside a primary a start reads
    refine .of_ends (b := true) hends hi hmem ?_ ?_
    · rw [if_neg (by decide), hp]
      rw [hp] at hmem
      have hprimary := primary_of_readFiles hmem
      exact readFiles_of_primary hprimary
    · exact readFiles_of_primary hload
  · -- the backup first, beside a primary no start reads
    refine .of_ends (b := false) hends hi hmem ?_ ?_
    · rw [if_pos rfl]
      rw [hp] at hmem
      exact readFiles_of_backup hmem hload
    · exact readFiles_of_primary hload

/-- **The spec of `update`.** -/
theorem update_ends {α : Type} {store t : StateStore} {f : StateUpdate α}
    {ends : FileSteps × FileSteps} {r : CallEnd α} (hs : Sound codec store)
    (h : store.update codec linux f ends = (r, t)) : UpdateEnds codec store f r t := by
  unfold update at h
  split at h
  · rename_i hi
    rw [Prod.mk.injEq] at h
    obtain ⟨rfl, rfl⟩ := h
    exact .closed hi ⟨_, rfl, rfl⟩
  · rename_i hi
    rw [Bool.not_eq_true] at hi
    split at h
    · rename_i e he
      rw [Prod.mk.injEq] at h
      obtain ⟨rfl, rfl⟩ := h
      exact .kept hi (.inr ⟨e, rfl, isIndeterminate_of_checked he⟩) (hs.memory hi)
    · rename_i outcome next encoded hn
      have hw : ∀ r' t', store.writeStateFiles linux encoded (writeOrder next) ends = (r', t') →
          WriteReads codec store next r' t' :=
        fun r' t' => writeStateFiles_reads hs hi (encodeChecked_of_checked hn)
      split at h
      · rename_i store' hk
        rw [Prod.mk.injEq] at h
        obtain ⟨rfl, rfl⟩ := h
        cases hw _ _ hk with
        | kept _ hread => exact .kept hi (.inl rfl) hread
        | landed _ hread => exact .landed hi hn (.inl rfl) hread
      · rename_i e store' he
        rw [Prod.mk.injEq] at h
        obtain ⟨rfl, rfl⟩ := h
        cases hw _ _ he with
        | kept hr hread =>
          refine .kept hi (.inr ?_) hread
          obtain hk | ⟨e', he', hu⟩ := hr
          · cases hk
          · cases he'
            exact ⟨e, rfl, hu⟩
        | landed hr hread =>
          refine .landed hi hn (.inr ?_) hread
          obtain hk | ⟨⟨e', he', hu⟩, hb⟩ := hr
          · cases hk
          · cases he'
            exact ⟨⟨e, rfl, hu⟩, hb⟩
      · rename_i store' hk
        rw [Prod.mk.injEq] at h
        obtain ⟨rfl, rfl⟩ := h
        cases hw _ _ hk with
        | kept hr hread =>
          obtain hk | ⟨e', he', hu⟩ := hr
          · cases hk
          · cases he'
        | landed hr hread =>
          obtain hk | ⟨⟨e', he', hu⟩, hb⟩ := hr
          · cases hk
          · cases he'
        | written hread => exact .written hi hn hread

/-- An opened store is sound. -/
theorem sound_of_openAt {dir : StateDir} {store : StateStore}
    (h : openAt codec dir = .ok store) : Sound codec store := by
  have hread : Reads codec dir store.inner := ⟨store, h, rfl⟩
  unfold openAt at h
  split at h
  · rename_i inner b hr
    simp only [Except.ok.injEq] at h
    subst h
    exact ⟨fun _ => hr, _, hread⟩
  · cases h

/-- **An update that returns leaves a sound store.** -/
theorem UpdateEnds.sound {α : Type} {store t : StateStore} {f : StateUpdate α} {r : CallEnd α}
    (h : UpdateEnds codec store f r t) (hs : Sound codec store) (hr : r ≠ .killed) :
    Sound codec t := by
  cases h with
  | closed _ _ => exact hs
  | kept _ _ hread => exact ⟨fun _ => hread, _, reads_iff.2 ⟨_, hread⟩⟩
  | landed _ _ hr' hread =>
    obtain hk | ⟨-, hu⟩ := hr'
    · exact absurd hk hr
    · refine ⟨fun hi => ?_, _, reads_iff.2 ⟨_, hread⟩⟩
      rw [hu] at hi
      cases hi
  | written _ _ hread => exact ⟨fun _ => hread, _, reads_iff.2 ⟨_, hread⟩⟩

/-! ## Every history of updates -/

/-- The stores a sequence of updates, each of which returned, leads to. -/
inductive Updated (codec : StateCodec) (linux : Bool) (first : StateStore) : StateStore → Prop
  | refl : Updated codec linux first first
  | tail {α : Type} {s t : StateStore} {f : StateUpdate α} {ends : FileSteps × FileSteps}
      {result : Except AgentError α} (hs : Updated codec linux first s)
      (hu : s.update codec linux f ends = (.returned result, t)) : Updated codec linux first t

theorem Updated.sound {first s : StateStore} (hf : Sound codec first)
    (h : Updated codec linux first s) : Sound codec s := by
  induction h with
  | refl => exact hf
  | tail _ hu ih => exact (update_ends ih hu).sound ih (by simp)

/-- An indeterminate store answers every update without touching it. -/
theorem update_of_indeterminate {α : Type} {store : StateStore} (h : store.indeterminate = true)
    (codec : StateCodec) (linux : Bool) (f : StateUpdate α) (ends : FileSteps × FileSteps) :
    (store.update codec linux f ends).2 = store := by
  rw [update, if_pos h]

theorem Updated.eq_of_indeterminate {first s : StateStore} (hi : first.indeterminate = true)
    (h : Updated codec linux first s) : s = first := by
  induction h with
  | refl => rfl
  | tail _ hu ih =>
    rename_i s t f ends result hs
    subst ih
    have hsame := update_of_indeterminate hi codec linux f ends
    rw [hu] at hsame
    exact hsame

/-- An update that cannot tell its outcome closes the store. -/
theorem UpdateEnds.indeterminate {α : Type} {store t : StateStore} {f : StateUpdate α}
    {r : CallEnd α} (h : UpdateEnds codec store f r t) (hr : Undecided r) :
    t.indeterminate = true := by
  obtain ⟨e, rfl, he⟩ := hr
  cases h with
  | closed hi _ => exact hi
  | kept _ hr' _ =>
    obtain hk | ⟨e', he', hu⟩ := hr'
    · cases hk
    · cases he'
      rw [he] at hu
      cases hu
  | landed _ _ hr' _ =>
    obtain hk | ⟨-, hu⟩ := hr'
    · cases hk
    · exact hu

/-- **What a reopen finds after any history of updates.** After the last
update returned `Ok` a start reads the state it wrote; after any error but
`StateIndeterminate` it reads the state the store held in memory; after a
kill or `StateIndeterminate` it reads the state before the update or the
state it wrote; and from the first `StateIndeterminate` on no update
changes a file. -/
theorem reopen_after_updates (codec : StateCodec) (linux : Bool) {dir : StateDir}
    {first s : StateStore} (hopen : openAt codec dir = .ok first)
    (hs : Updated codec linux first s) {α : Type} (f : StateUpdate α)
    (ends : FileSteps × FileSteps) {r : CallEnd α} {t : StateStore}
    (hu : s.update codec linux f ends = (r, t)) :
    (∀ outcome, r = .returned (.ok outcome) → ∃ next encoded,
      s.checked codec f = .ok (outcome, next, encoded) ∧ Reads codec t.files next) ∧
    (∀ e, r = .returned (.error e) → e.isIndeterminate = false → Reads codec t.files s.inner) ∧
    ((r = .killed ∨ Undecided r) → ∃ earlier, Reads codec s.files earlier ∧
      (s.indeterminate = false → earlier = s.inner) ∧
      (Reads codec t.files earlier ∨ ∃ outcome next encoded,
        s.checked codec f = .ok (outcome, next, encoded) ∧ Reads codec t.files next)) ∧
    (Undecided r → ∀ u, Updated codec linux t u → ∀ (β : Type) (g : StateUpdate β) (ends' :
      FileSteps × FileSteps), (u.update codec linux g ends').2.files = t.files) := by
  have hsound := Updated.sound (sound_of_openAt hopen) hs
  have hends := update_ends hsound hu
  refine ⟨?_, ?_, ?_, ?_⟩
  · rintro outcome rfl
    cases hends with
    | closed _ hr => obtain ⟨e, he, -⟩ := hr; cases he
    | kept _ hr _ => obtain hr | ⟨e, hr, -⟩ := hr <;> cases hr
    | landed _ _ hr _ => obtain hr | ⟨⟨e, hr, -⟩, -⟩ := hr <;> cases hr
    | written _ hn hread => exact ⟨_, _, hn, reads_iff.2 ⟨_, hread⟩⟩
  · rintro e rfl he
    cases hends with
    | closed _ hr =>
      obtain ⟨e', he', hu'⟩ := hr
      cases he'
      rw [he] at hu'
      cases hu'
    | kept _ _ hread => exact reads_iff.2 ⟨_, hread⟩
    | landed _ _ hr _ =>
      obtain hr | ⟨⟨e', hr, hu'⟩, -⟩ := hr
      · cases hr
      · cases hr
        rw [he] at hu'
        cases hu'
  · intro hr
    cases hends with
    | closed hi _ =>
      obtain ⟨earlier, hread⟩ := hsound.readable
      refine ⟨earlier, hread, fun h => ?_, .inl hread⟩
      rw [hi] at h
      cases h
    | kept hi _ hread =>
      exact ⟨s.inner, reads_iff.2 ⟨_, hsound.memory hi⟩, fun _ => rfl,
        .inl (reads_iff.2 ⟨_, hread⟩)⟩
    | landed hi hn _ hread =>
      exact ⟨s.inner, reads_iff.2 ⟨_, hsound.memory hi⟩, fun _ => rfl,
        .inr ⟨_, _, _, hn, reads_iff.2 ⟨_, hread⟩⟩⟩
    | written _ _ _ => obtain hr | ⟨e, hr, -⟩ := hr <;> cases hr
  · intro hr u hlater β g ends'
    have hi := hends.indeterminate hr
    have hsame := hlater.eq_of_indeterminate hi
    subst hsame
    rw [update_of_indeterminate hi]

/-- The text of a legacy state with nothing recorded. -/
def plainText (storeVersion : ℕ) : String :=
  "\x7b\n  \"schema_version\": \"0.1\",\n  \"store_version\": " ++ toString storeVersion ++ "\n\x7d"

/-- The JSON encoding, as far as the first updates of a new store that
record nothing read and write it. -/
def plainCodec : StateCodec where
  encode s := if s = { storeVersion := s.storeVersion } then .ok (plainText s.storeVersion)
    else .error "not written"
  parse raw :=
    match [2, 3].find? fun n => plainText n = raw with
    | some n => .ok { storeVersion := n }
    | none => .error (.malformed "not read")
  parse_blank := by
    intro raw s hb
    split
    · rename_i n hn
      have hmem := List.mem_of_find?_eq_some hn
      have hraw := List.find?_some hn
      rw [decide_eq_true_iff] at hraw
      rw [← hraw] at hb
      rcases List.mem_pair.1 hmem with rfl | rfl <;> exact absurd hb (by decide)
    · simp

/-- An update that records nothing. -/
def recordNothing : StateUpdate Unit := ⟨fun s => .ok ((), s), by simp⟩

theorem reopen_after_first_update :
    openAt plainCodec ⟨.missing, .missing⟩ = .ok ⟨⟨.missing, .missing⟩, AgentState.fresh, false, false⟩ ∧
      Reads plainCodec ⟨.text (plainText 2), .text (plainText 2)⟩ { storeVersion := 2 } := by
  have hopen : openAt plainCodec ⟨.missing, .missing⟩ =
      .ok ⟨⟨.missing, .missing⟩, AgentState.fresh, false, false⟩ := rfl
  have hu : update plainCodec true ⟨⟨.missing, .missing⟩, AgentState.fresh, false, false⟩
      recordNothing ({}, {}) =
      (.returned (.ok ()),
        ⟨⟨.text (plainText 2), .text (plainText 2)⟩, { storeVersion := 2 }, true, false⟩) := rfl
  obtain ⟨next, encoded, hn, hread⟩ :=
    (reopen_after_updates plainCodec true hopen .refl _ _ hu).1 () rfl
  have hnext : next = { storeVersion := 2 } := by
    simp only [show checked plainCodec ⟨⟨.missing, .missing⟩, AgentState.fresh, false, false⟩
      recordNothing = .ok ((), { storeVersion := 2 }, plainText 2) from rfl, Except.ok.injEq, Prod.mk.injEq,
      true_and] at hn
    exact hn.1.symm
  exact ⟨hopen, hnext ▸ hread⟩

end StateStore

end Agent

end Tensorplate
