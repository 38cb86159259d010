import Mathlib.Logic.Relation
import Tensorplate.Agent.StateStore

/-!
# What an older agent reads

An agent through 0.2.1 falls back to the backup whenever the primary does
not decode as version 0.1, so a 0.2 primary must never sit beside a 0.1
backup. `Ordered` is that rule over every pair a failed write can leave,
with the list of committed states beside the directory: a 0.1 backup is a
committed state that no committed 0.2 state followed.
-/

namespace Tensorplate

namespace Agent

open StateStore

variable {codec : StateCodec} {linux : Bool}

/-- The file holds a whole encoded state. -/
def Holds (codec : StateCodec) (file : StateFile) (s : AgentState) : Prop :=
  loadOne codec file = .ok (some s)

theorem Holds.unique {file : StateFile} {s t : AgentState} (hs : Holds codec file s)
    (ht : Holds codec file t) : s = t := by
  unfold Holds at hs ht
  rw [hs] at ht
  simpa using ht

/-! ## Runs of the agent on one directory -/

/-- A state directory, the store of the agent that runs on it, if any, and
every state committed so far, oldest first. -/
structure Site where
  files : StateDir
  running : Option StateStore := none
  committed : List AgentState := []

/-- What an update that left the store `t` committed: a state commits when
it becomes what the next start reads. -/
def committedBy {α : Type} (codec : StateCodec) (store : StateStore) (f : StateUpdate α)
    (t : StateStore) : List AgentState :=
  if store.indeterminate then []
  else
    match store.checked codec f, readFiles codec t.files with
    | .ok (_, next, _), .ok (read, _) => if read = next then [next] else []
    | _, _ => []

/-- **One event on a state directory**: the agent starts, an update
returns, the process is killed inside an update or outside one, or the
primary is damaged while no agent runs. -/
inductive Event (codec : StateCodec) (linux : Bool) : Site → Site → Prop
  | start {w : Site} {store : StateStore} (hw : w.running = none)
      (ho : openAt codec w.files = .ok store) :
      Event codec linux w { w with running := some store }
  | updated {w : Site} {store t : StateStore} {α : Type} {f : StateUpdate α}
      {ends : FileSteps × FileSteps} {result : Except AgentError α}
      (hw : w.running = some store)
      (hu : store.update codec linux f ends = (.returned result, t)) :
      Event codec linux w ⟨t.files, some t, w.committed ++ committedBy codec store f t⟩
  | killedInside {w : Site} {store t : StateStore} {α : Type} {f : StateUpdate α}
      {ends : FileSteps × FileSteps} (hw : w.running = some store)
      (hu : store.update codec linux f ends = (.killed, t)) :
      Event codec linux w ⟨t.files, none, w.committed ++ committedBy codec store f t⟩
  | killed {w : Site} : Event codec linux w { w with running := none }
  | damaged {w : Site} {file : StateFile} (hw : w.running = none)
      (hf : ∀ s, ¬Holds codec file s) :
      Event codec linux w { w with files := { w.files with primary := file } }

/-- **Where a history starts**: an empty directory, or one a legacy agent
wrote, whose backup is its primary or a state committed before it. -/
inductive Initial (codec : StateCodec) : Site → Prop
  | empty : Initial codec { files := ⟨.missing, .missing⟩ }
  | legacy {files : StateDir} {p b : AgentState} (hp : Holds codec files.primary p)
      (hb : Holds codec files.backup b) (hpv : p.schemaVersion = .legacy)
      (hbv : b.schemaVersion = .legacy) : Initial codec { files := files, committed := [b, p] }

/-- The sites a history leads to. -/
def Site.Reached (codec : StateCodec) (linux : Bool) (w : Site) : Prop :=
  ∃ first, Initial codec first ∧ Relation.ReflTransGen (Event codec linux) first w

/-! ## The rule of the pair -/

/-- No committed state after this one is of version 0.2. -/
def LastOfItsVersion (committed : List AgentState) (s : AgentState) : Prop :=
  ∃ older newer, committed = older ++ s :: newer ∧ ∀ t ∈ newer, t.schemaVersion = .legacy

/-- **The pair beside what was committed.** -/
structure Ordered (codec : StateCodec) (files : StateDir) (committed : List AgentState) : Prop where
  newest : ∀ p, Holds codec files.primary p → committed.getLast? = some p
  paired : ∀ p, Holds codec files.primary p → p.schemaVersion ≠ .legacy →
    ∃ b, Holds codec files.backup b ∧ b.schemaVersion ≠ .legacy
  backed : ∀ b, Holds codec files.backup b → b.schemaVersion = .legacy →
    LastOfItsVersion committed b
  bare : (∀ b, ¬Holds codec files.backup b) → ∀ t ∈ committed, t.schemaVersion = .legacy

theorem LastOfItsVersion.append {committed : List AgentState} {s next : AgentState}
    (h : LastOfItsVersion committed s) (hn : next.schemaVersion = .legacy) :
    LastOfItsVersion (committed ++ [next]) s := by
  obtain ⟨older, newer, rfl, hl⟩ := h
  refine ⟨older, newer ++ [next], by simp, fun t ht => ?_⟩
  rcases List.mem_append.1 ht with ht | ht
  · exact hl t ht
  · rw [List.mem_singleton.1 ht]
    exact hn

theorem LastOfItsVersion.last (committed : List AgentState) (s : AgentState) :
    LastOfItsVersion (committed ++ [s]) s :=
  ⟨committed, [], rfl, by simp⟩

/-- A start reads a whole file of the pair or starts anew. -/
theorem holds_of_readFiles {files : StateDir} {s : AgentState} {b : Bool}
    (h : readFiles codec files = .ok (s, b)) :
    Holds codec files.primary s ∨ (∀ p, ¬Holds codec files.primary p) ∧
      (Holds codec files.backup s ∨ s = AgentState.fresh ∧ ∀ t, ¬Holds codec files.backup t) := by
  unfold Holds
  unfold readFiles at h
  split at h
  · rename_i s' hs
    simp only [Except.ok.injEq, Prod.mk.injEq] at h
    exact .inl (h.1 ▸ hs)
  · rename_i hp
    refine .inr ⟨by simp [hp], ?_⟩
    split at h
    · rename_i s' hs
      simp only [Except.ok.injEq, Prod.mk.injEq] at h
      exact .inl (h.1 ▸ hs)
    · rename_i hb
      simp only [Except.ok.injEq, Prod.mk.injEq] at h
      exact .inr ⟨h.1.symm, by simp [hb]⟩
    · cases h
  · rename_i e hp
    refine .inr ⟨by simp [hp], .inl ?_⟩
    split at h
    · split at h
      · rename_i s' hs
        simp only [Except.ok.injEq, Prod.mk.injEq] at h
        exact h.1 ▸ hs
      · cases h
    · cases h

namespace Ordered

variable {files : StateDir} {committed : List AgentState} {s next : AgentState}

/-- What a start reads is of version 0.2 only beside a 0.2 backup. -/
theorem backup_of_read {b : Bool} (h : Ordered codec files committed)
    (hr : readFiles codec files = .ok (s, b)) (hs : s.schemaVersion ≠ .legacy) :
    ∃ t, Holds codec files.backup t ∧ t.schemaVersion ≠ .legacy := by
  obtain hp | ⟨-, hb | ⟨rfl, -⟩⟩ := holds_of_readFiles hr
  · exact h.paired s hp hs
  · exact ⟨s, hb, hs⟩
  · exact absurd rfl hs

/-- Counting what a start reads as committed keeps the rule. -/
theorem append_read {b : Bool} (h : Ordered codec files committed)
    (hr : readFiles codec files = .ok (s, b)) : Ordered codec files (committed ++ [s]) := by
  -- beside a 0.1 backup or none, what a start reads is of version 0.1
  have hlegacy : (∀ t, Holds codec files.backup t → t.schemaVersion = .legacy) →
      s.schemaVersion = .legacy := by
    intro hb
    by_contra hs
    obtain ⟨t, ht, htv⟩ := h.backup_of_read hr hs
    exact htv (hb t ht)
  refine ⟨fun p hp => ?_, h.paired, fun t ht htv => ?_, fun hb t ht => ?_⟩
  · rw [readFiles_of_primary hp] at hr
    simp only [Except.ok.injEq, Prod.mk.injEq] at hr
    rw [List.getLast?_concat, hr.1]
  · exact (h.backed t ht htv).append (hlegacy fun t' ht' => ht.unique ht' ▸ htv)
  · rcases List.mem_append.1 ht with ht | ht
    · exact h.bare hb t ht
    · rw [List.mem_singleton.1 ht]
      exact hlegacy fun t' ht' => absurd ht' (hb t')

/-- A primary of version 0.1 renamed into place commits. -/
theorem legacy_primary {file : StateFile} (h : Ordered codec files committed)
    (hf : Holds codec file next) (hn : next.schemaVersion = .legacy) :
    Ordered codec { files with primary := file } (committed ++ [next]) := by
  refine ⟨fun p hp => ?_, fun p hp hpv => ?_, fun t ht htv => ?_, fun hb t ht => ?_⟩
  · rw [List.getLast?_concat, hf.unique hp]
  · rw [← hf.unique hp] at hpv
    exact absurd hn hpv
  · exact (h.backed t ht htv).append hn
  · rcases List.mem_append.1 ht with ht | ht
    · exact h.bare hb t ht
    · rw [List.mem_singleton.1 ht]
      exact hn

/-- A pair of one state, written whole. -/
theorem both {file : StateFile} (hf : Holds codec file next) :
    Ordered codec ⟨file, file⟩ (committed ++ [next]) := by
  refine ⟨fun p hp => ?_, fun p hp hpv => ⟨p, hp, hpv⟩, fun t ht _ => ?_, fun hb => ?_⟩
  · rw [List.getLast?_concat, hf.unique hp]
  · rw [← hf.unique ht]
    exact LastOfItsVersion.last committed next
  · exact absurd hf (hb next)

/-- A backup of version 0.2 renamed into place is safe beside any primary
that is the newest committed state. -/
theorem newer_backup {file : StateFile} (hf : Holds codec file next)
    (hn : next.schemaVersion ≠ .legacy)
    (hnewest : ∀ p, Holds codec files.primary p → committed.getLast? = some p) :
    Ordered codec { files with backup := file } committed := by
  refine ⟨hnewest, fun _ _ _ => ⟨next, hf, hn⟩, fun t ht htv => ?_, fun hb => ?_⟩
  · rw [← hf.unique ht] at htv
    exact absurd htv hn
  · exact absurd hf (hb next)

/-- Damage to the primary takes nothing from the backup. -/
theorem damaged {file : StateFile} (h : Ordered codec files committed)
    (hf : ∀ s, ¬Holds codec file s) : Ordered codec { files with primary := file } committed :=
  ⟨fun p hp => absurd hp (hf p), fun p hp => absurd hp (hf p), h.backed, h.bare⟩

end Ordered

/-! ## One update -/

/-- The three directories of a write. -/
theorem files_of_writeEnds {store t : StateStore} {encoded : String}
    {first second commit : WriteStep} {r : CallEnd Unit}
    (h : WriteEnds store encoded first second commit r t) :
    t.files = store.files ∨ t.files = store.after encoded first ∨
      t.files = StateDir.renamed (store.after encoded first) encoded second := by
  cases h with
  | before _ => exact .inl rfl
  | killedBetween => exact .inr (.inl rfl)
  | refusedBetween _ _ => exact .inr (.inl rfl)
  | undecidedBetween _ _ => exact .inr (.inl rfl)
  | killedAfter => exact .inr (.inr rfl)
  | undecidedAfter _ => exact .inr (.inr rfl)
  | written => exact .inr (.inr rfl)

/-- **Which files an update leaves.** Between its renames a 0.1 write has
replaced the primary and a 0.2 write the backup. -/
inductive LeavesFiles {α : Type} (codec : StateCodec) (store : StateStore) (f : StateUpdate α) :
    StateDir → Prop
  | same : LeavesFiles codec store f store.files
  | primary {outcome : α} {next : AgentState} {encoded : String}
      (hi : store.indeterminate = false)
      (hn : store.checked codec f = .ok (outcome, next, encoded))
      (hv : next.schemaVersion = .legacy) :
      LeavesFiles codec store f ⟨.text encoded, store.files.backup⟩
  | backup {outcome : α} {next : AgentState} {encoded : String}
      (hi : store.indeterminate = false)
      (hn : store.checked codec f = .ok (outcome, next, encoded))
      (hv : next.schemaVersion ≠ .legacy) :
      LeavesFiles codec store f ⟨store.files.primary, .text encoded⟩
  | both {outcome : α} {next : AgentState} {encoded : String}
      (hi : store.indeterminate = false)
      (hn : store.checked codec f = .ok (outcome, next, encoded)) :
      LeavesFiles codec store f ⟨.text encoded, .text encoded⟩

theorem leavesFiles_of_write {α : Type} {store t : StateStore} {f : StateUpdate α} {outcome : α}
    {next : AgentState} {encoded : String} {ends : FileSteps × FileSteps} {r : CallEnd Unit}
    (hi : store.indeterminate = false) (hn : store.checked codec f = .ok (outcome, next, encoded))
    (h : store.writeStateFiles linux encoded (writeOrder next) ends = (r, t)) :
    LeavesFiles codec store f t.files := by
  have hbackup : ∀ commit, next.schemaVersion ≠ .legacy →
      WriteEnds store encoded .backup .primary commit r t → LeavesFiles codec store f t.files := by
    intro commit hv hends
    obtain h | h | h := files_of_writeEnds hends <;> rw [h]
    · exact .same
    · exact .backup hi hn hv
    · exact .both hi hn
  obtain ⟨hv, hends⟩ | ⟨hv, -, hends⟩ | ⟨hv, -, hends⟩ := writeStateFiles_ends h
  · obtain h | h | h := files_of_writeEnds hends <;> rw [h]
    · exact .same
    · exact .primary hi hn hv
    · exact .both hi hn
  · exact hbackup _ hv hends
  · exact hbackup _ hv hends

theorem leavesFiles_of_update {α : Type} {store t : StateStore} {f : StateUpdate α}
    {ends : FileSteps × FileSteps} {r : CallEnd α}
    (h : store.update codec linux f ends = (r, t)) : LeavesFiles codec store f t.files := by
  unfold update at h
  split at h
  · rw [Prod.mk.injEq] at h
    rw [← h.2]
    exact .same
  · rename_i hi
    rw [Bool.not_eq_true] at hi
    split at h
    · rw [Prod.mk.injEq] at h
      rw [← h.2]
      exact .same
    · rename_i hn
      split at h
      all_goals
        rename_i hw
        rw [Prod.mk.injEq] at h
        rw [← h.2]
        have hleft := leavesFiles_of_write hi hn hw
        exact hleft

/-- What an update committed, told by what a start then reads. -/
theorem committedBy_eq {α : Type} {store t : StateStore} {f : StateUpdate α} {outcome : α}
    {next read : AgentState} {encoded : String} {b : Bool} (hi : store.indeterminate = false)
    (hn : store.checked codec f = .ok (outcome, next, encoded))
    (hr : readFiles codec t.files = .ok (read, b)) :
    committedBy codec store f t = if read = next then [next] else [] := by
  rw [committedBy, if_neg (by rw [hi]; simp), hn, hr]

/-- Counting a read state as committed or not, the rule stands. -/
theorem Ordered.append_if {files : StateDir} {committed : List AgentState} {read next : AgentState}
    {b : Bool} (h : Ordered codec files committed) (hr : readFiles codec files = .ok (read, b)) :
    Ordered codec files (committed ++ if read = next then [next] else []) := by
  split
  · rename_i heq
    exact heq ▸ h.append_read hr
  · rw [List.append_nil]
    exact h

/-- **An update keeps the rule of the pair**, wherever its write ends. -/
theorem Ordered.update {α : Type} {store t : StateStore} {f : StateUpdate α}
    {ends : FileSteps × FileSteps} {r : CallEnd α} {committed : List AgentState}
    (h : Ordered codec store.files committed) (hs : Sound codec store)
    (hu : store.update codec linux f ends = (r, t)) :
    Ordered codec t.files (committed ++ committedBy codec store f t) := by
  have hl := leavesFiles_of_update hu
  generalize hfiles : t.files = files at hl
  cases hl with
  | same =>
    by_cases hi : store.indeterminate = true
    · rw [committedBy, if_pos hi, List.append_nil]
      exact h
    · rw [Bool.not_eq_true] at hi
      cases hn : store.checked codec f with
      | error e =>
        rw [committedBy, if_neg (by rw [hi]; simp), hn, List.append_nil]
        exact h
      | ok written =>
        obtain ⟨outcome, next, encoded⟩ := written
        have hr := hs.memory hi
        rw [committedBy_eq hi hn (hfiles ▸ hr)]
        exact h.append_if hr
  | primary hi hn hv =>
    have hload := loadOne_encoded (encodeChecked_of_checked hn)
    rw [committedBy_eq hi hn (by rw [hfiles]; exact readFiles_of_primary hload), if_pos rfl]
    exact h.legacy_primary hload hv
  | backup hi hn hv =>
    have hload := loadOne_encoded (encodeChecked_of_checked hn)
    have hpair := Ordered.newer_backup hload hv h.newest
    cases hp : store.primaryIsRead with
    | true =>
      -- the primary still reads: nothing was committed, unless it is the same state
      have hmem := hs.memory hi
      rw [hp] at hmem
      have hprimary := primary_of_readFiles hmem
      rw [committedBy_eq hi hn (by rw [hfiles]; exact readFiles_of_primary hprimary)]
      exact hpair.append_if (readFiles_of_primary hprimary)
    | false =>
      have hmem := hs.memory hi
      rw [hp] at hmem
      have hread := readFiles_of_backup hmem hload
      rw [committedBy_eq hi hn (by rw [hfiles]; exact hread)]
      exact hpair.append_if hread
  | both hi hn =>
    have hload := loadOne_encoded (encodeChecked_of_checked hn)
    rw [committedBy_eq hi hn (by rw [hfiles]; exact readFiles_of_primary hload), if_pos rfl]
    exact Ordered.both hload

/-! ## Every history -/

/-- A site that keeps the rule, with a sound store where an agent runs. -/
structure Site.Sound (codec : StateCodec) (w : Site) : Prop where
  ordered : Ordered codec w.files w.committed
  store : ∀ s, w.running = some s → s.files = w.files ∧ StateStore.Sound codec s

theorem Initial.sound {w : Site} (h : Initial codec w) : w.Sound codec := by
  cases h with
  | empty =>
    have hnone : ∀ s, ¬Holds codec .missing s := by simp [Holds, loadOne]
    exact ⟨⟨fun p hp => absurd hp (hnone p), fun p hp => absurd hp (hnone p),
      fun b hb => absurd hb (hnone b), by simp⟩, by simp⟩
  | legacy hp hb hpv hbv =>
    rename_i files p b
    refine ⟨⟨fun p' hp' => ?_, fun p' hp' hpv' => ?_, fun b' hb' _ => ?_, fun hnone => ?_⟩, by simp⟩
    · rw [← hp.unique hp']
      rfl
    · exact absurd (hp.unique hp' ▸ hpv) hpv'
    · rw [← hb.unique hb']
      exact ⟨[], [p], rfl, by simp [hpv]⟩
    · exact absurd hb (hnone b)

/-- **Every event keeps the rule.** -/
theorem Event.sound {w w' : Site} (h : Event codec linux w w') (hw : w.Sound codec) :
    w'.Sound codec := by
  cases h with
  | start _ ho =>
    refine ⟨hw.ordered, fun s hs => ?_⟩
    simp only [Option.some.injEq] at hs
    subst hs
    refine ⟨?_, sound_of_openAt ho⟩
    unfold openAt at ho
    split at ho
    · simp only [Except.ok.injEq] at ho
      rw [← ho]
    · cases ho
  | updated hr hu =>
    obtain ⟨hfiles, hsound⟩ := hw.store _ hr
    refine ⟨Ordered.update (hfiles ▸ hw.ordered) hsound hu, fun s hs => ?_⟩
    simp only [Option.some.injEq] at hs
    subst hs
    exact ⟨rfl, (update_ends hsound hu).sound hsound (by simp)⟩
  | killedInside hr hu =>
    obtain ⟨hfiles, hsound⟩ := hw.store _ hr
    exact ⟨Ordered.update (hfiles ▸ hw.ordered) hsound hu, by simp⟩
  | killed => exact ⟨hw.ordered, by simp⟩
  | damaged hr hf =>
    refine ⟨hw.ordered.damaged hf, fun s hs => ?_⟩
    rw [hr] at hs
    cases hs

theorem Site.Reached.sound {w : Site} (h : w.Reached codec linux) : w.Sound codec := by
  obtain ⟨first, hfirst, hrun⟩ := h
  induction hrun with
  | refl => exact hfirst.sound
  | tail _ he ih => exact he.sound ih

/-- What the older reader takes from one file. -/
theorem legacyLoadOne_eq_some {file : StateFile} {s : AgentState} :
    legacyLoadOne codec file = .ok (some s) ↔ Holds codec file s ∧ s.schemaVersion = .legacy := by
  unfold legacyLoadOne Holds
  constructor
  · intro h
    split at h
    · cases h
    · rename_i s' hs
      split at h
      · rename_i hv
        simp only [Except.ok.injEq, Option.some.injEq] at h
        subst h
        exact ⟨hs, hv⟩
      · cases h
    · cases h
  · rintro ⟨h, hv⟩
    rw [h]
    exact if_pos hv

theorem not_holds_of_legacyLoadOne {file : StateFile}
    (h : legacyLoadOne codec file = .ok none) (s : AgentState) : ¬Holds codec file s := by
  intro hs
  unfold legacyLoadOne at h
  rw [show loadOne codec file = .ok (some s) from hs] at h
  dsimp only at h
  split at h <;> simp at h

/-- Where the older reader does not take the primary, the primary is of
version 0.2 or holds no state. -/
theorem legacyOpen_cases {files : StateDir} {s : AgentState}
    (h : legacyOpen codec files = .ok s) :
    (Holds codec files.primary s ∧ s.schemaVersion = .legacy) ∨
      (∀ p, Holds codec files.primary p → p.schemaVersion ≠ .legacy) ∧
        (Holds codec files.backup s ∧ s.schemaVersion = .legacy) ∨
      (∀ p, ¬Holds codec files.primary p) ∧ (∀ b, ¬Holds codec files.backup b) ∧
        s = AgentState.fresh := by
  unfold legacyOpen at h
  split at h
  · rename_i s' hs
    simp only [Except.ok.injEq] at h
    subst h
    exact .inl (legacyLoadOne_eq_some.1 hs)
  · rename_i hp
    have hnone := not_holds_of_legacyLoadOne hp
    split at h
    · rename_i s' hs
      simp only [Except.ok.injEq] at h
      subst h
      exact .inr (.inl ⟨fun p hp' => absurd hp' (hnone p), legacyLoadOne_eq_some.1 hs⟩)
    · rename_i hb
      simp only [Except.ok.injEq] at h
      exact .inr (.inr ⟨hnone, not_holds_of_legacyLoadOne hb, h.symm⟩)
    · cases h
  · rename_i hp
    refine .inr (.inl ⟨fun p hp' hv => ?_, ?_⟩)
    · rw [legacyLoadOne_eq_some.2 ⟨hp', hv⟩] at hp
      cases hp
    · split at h
      · rename_i s' hs
        simp only [Except.ok.injEq] at h
        subst h
        exact legacyLoadOne_eq_some.1 hs
      · cases h

/-- **What an older agent reads after any history.** A 0.2 primary never
sits beside a 0.1 backup. When the primary is whole the older reader takes
the newest committed state or refuses; when it is lost the reader takes a
committed 0.1 state that only 0.1 states followed, starts anew where no
0.2 state was ever committed, or refuses. -/
theorem older_reader_never_resurrects (codec : StateCodec) (linux : Bool) {w : Site}
    (hw : w.Reached codec linux) :
    (∀ p b, Holds codec w.files.primary p → Holds codec w.files.backup b →
      p.schemaVersion ≠ .legacy → b.schemaVersion ≠ .legacy) ∧
    ∀ s, legacyOpen codec w.files = .ok s →
      (∀ p, Holds codec w.files.primary p → w.committed.getLast? = some s) ∧
      (LastOfItsVersion w.committed s ∨
        s = AgentState.fresh ∧ ∀ t ∈ w.committed, t.schemaVersion = .legacy) := by
  have hord := hw.sound.ordered
  have hpair : ∀ p b, Holds codec w.files.primary p → Holds codec w.files.backup b →
      p.schemaVersion ≠ .legacy → b.schemaVersion ≠ .legacy := by
    intro p b hp hb hpv
    obtain ⟨b', hb', hbv⟩ := hord.paired p hp hpv
    rwa [hb.unique hb']
  refine ⟨hpair, fun s hs => ?_⟩
  obtain ⟨hp, hv⟩ | ⟨hp, hb, hv⟩ | ⟨hp, hb, rfl⟩ := legacyOpen_cases hs
  · have hlast := hord.newest s hp
    refine ⟨fun _ _ => hlast, .inl ?_⟩
    obtain ⟨older, hc⟩ := List.getLast?_eq_some_iff.1 hlast
    exact ⟨older, [], hc, by simp⟩
  · refine ⟨fun p hp' => absurd hv (hpair p s hp' hb (hp p hp')), .inl (hord.backed s hb hv)⟩
  · exact ⟨fun p hp' => absurd hp' (hp p), .inr ⟨rfl, hord.bare hb⟩⟩

/-- A new agent writes version 0.1 twice, is killed between the two
renames of the second write, and the primary is then lost. -/
def lostPrimary : Site :=
  ⟨⟨.missing, .text (plainText 2)⟩, none, [{ storeVersion := 2 }, { storeVersion := 3 }]⟩

/-- A new store, the store after its first write, and after the second
stopped between its renames. -/
def unwritten : StateStore := ⟨⟨.missing, .missing⟩, AgentState.fresh, false, false⟩

@[inherit_doc unwritten]
def written : StateStore :=
  ⟨⟨.text (plainText 2), .text (plainText 2)⟩, { storeVersion := 2 }, true, false⟩

@[inherit_doc unwritten]
def stopped : StateStore :=
  ⟨⟨.text (plainText 3), .text (plainText 2)⟩, { storeVersion := 2 }, true, false⟩

theorem lostPrimary_reached : lostPrimary.Reached plainCodec true := by
  have hwrite : unwritten.update plainCodec true recordNothing ({}, {}) =
      (.returned (.ok ()), written) := rfl
  have hstop : written.update plainCodec true recordNothing ({}, { write := .killed }) =
      (.killed, stopped) := rfl
  have h₁ : Event plainCodec true { files := ⟨.missing, .missing⟩ }
      ⟨unwritten.files, some unwritten, []⟩ := .start rfl rfl
  have h₂ : Event plainCodec true ⟨unwritten.files, some unwritten, []⟩
      ⟨written.files, some written, [] ++ committedBy plainCodec unwritten recordNothing written⟩ :=
    .updated rfl hwrite
  have h₃ : Event plainCodec true ⟨written.files, some written, [{ storeVersion := 2 }]⟩
      ⟨stopped.files, none,
        [{ storeVersion := 2 }] ++ committedBy plainCodec written recordNothing stopped⟩ :=
    .killedInside rfl hstop
  have h₄ : Event plainCodec true
      ⟨stopped.files, none, [{ storeVersion := 2 }, { storeVersion := 3 }]⟩ lostPrimary :=
    .damaged rfl (by simp [Holds, loadOne])
  exact ⟨_, .empty, (((Relation.ReflTransGen.single h₁).tail h₂).tail h₃).tail h₄⟩

/-- The older reader takes a committed 0.1 state that is not the newest. -/
theorem older_reader_misses_newest :
    ∃ w : Site, w.Reached plainCodec true ∧
      legacyOpen plainCodec w.files = .ok { storeVersion := 2 } ∧
      (w.committed.filter fun s => s.schemaVersion = .legacy).getLast? =
        some { storeVersion := 3 } :=
  ⟨lostPrimary, lostPrimary_reached, rfl, rfl⟩

theorem older_reader_never_resurrects_lost :
    lostPrimary.Reached plainCodec true ∧
      (LastOfItsVersion lostPrimary.committed { storeVersion := 2 } ∨
        ({ storeVersion := 2 } : AgentState) = AgentState.fresh ∧
          ∀ t ∈ lostPrimary.committed, t.schemaVersion = .legacy) :=
  ⟨lostPrimary_reached,
    ((older_reader_never_resurrects plainCodec true lostPrimary_reached).2 _ rfl).2⟩

end Agent

end Tensorplate
