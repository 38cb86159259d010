import Tensorplate.Sidecar.Closing
import Tensorplate.Sidecar.Continuity

/-!
# The states that VAD jobs start from

The table is, for each session, a line of VAD jobs, and every change of the
table is a sequence of its steps. So the state a job is given is the one
that the session's submit right before it left, or none.
-/

namespace Tensorplate

namespace Sidecar

open Lib

variable {σ : Type} {t t' : Table σ} {w w' : World σ} {r q : Ref} {S : Session} {loose : List Ref}

/-! ## The line of a table -/

/-- What an entry of the log is to a session. -/
def Entry.turn? (S : Session) : Entry σ → Option (Turn σ)
  | .arrived r header => if Table.vadSession? header = some S then some (.arrived r) else none
  | .scored r s u state => if s = S then some (.scored r u state) else none
  | .closed _ => some .cleared
  | .sent (.sessionReleased s) => if s = S then some .cleared else none
  | _ => none

/-- What happened to a session. -/
def turns (S : Session) (log : List (Entry σ)) : List (Turn σ) := log.filterMap (Entry.turn? S)

@[simp] theorem turns_append (S : Session) (a b : List (Entry σ)) :
    turns S (a ++ b) = turns S a ++ turns S b := List.filterMap_append

theorem turns_eq_nil {log : List (Entry σ)} (h : ∀ e ∈ log, e.turn? S = none) :
    turns S log = [] := List.filterMap_eq_nil_iff.2 h

/-- What is nothing to the session may follow. -/
theorem turns_quiet {log more : List (Entry σ)} (h : ∀ e ∈ more, e.turn? S = none) :
    turns S (log ++ more) = turns S log := by
  rw [turns_append, turns_eq_nil h, List.append_nil]

/-- The jobs of a session, with their marks. -/
def Table.marked (t : Table σ) (S : Session) (qs : List Ref) : List (ℕ × Bool) :=
  (qs.filter fun q => (t.objects q).session = S).map fun q => (q, (t.objects q).fromReset)

/-- The VAD jobs, in the order in which they run. -/
def Table.vadJobs (t : Table σ) : List Ref := t.vadRunning.toList ++ t.vadLane

/-- **The line of a session.** -/
def Table.line (t : Table σ) (S : Session) : Line σ where
  turns := turns S t.log
  queue := t.marked S t.vadJobs
  held := t.vadSessions S
  next := t.next

theorem marked_append (t : Table σ) (S : Session) (a b : List Ref) :
    t.marked S (a ++ b) = t.marked S a ++ t.marked S b := by
  unfold Table.marked
  rw [List.filter_append, List.map_append]

theorem marked_cons (h : (t.objects r).session = S) (qs : List Ref) :
    t.marked S (r :: qs) = (r, (t.objects r).fromReset) :: t.marked S qs := by
  unfold Table.marked
  rw [List.filter_cons_of_pos (by simpa using h), List.map_cons]

theorem marked_cons_of_ne (h : (t.objects r).session ≠ S) (qs : List Ref) :
    t.marked S (r :: qs) = t.marked S qs := by
  unfold Table.marked
  rw [List.filter_cons_of_neg (by simpa using h)]

theorem marked_congr {qs : List Ref} (h : ∀ q ∈ qs, (t'.objects q).session = (t.objects q).session ∧
    (t'.objects q).fromReset = (t.objects q).fromReset) : t'.marked S qs = t.marked S qs := by
  unfold Table.marked
  have hfilter : (qs.filter fun q => (t'.objects q).session = S) =
      qs.filter fun q => (t.objects q).session = S := by
    apply List.filter_congr
    intro q hq
    rw [(h q hq).1]
  rw [hfilter]
  apply List.map_congr_left
  intro q hq
  rw [(h q (List.mem_of_mem_filter hq)).2]

theorem mem_marked {qs : List Ref} {x : ℕ × Bool} : x ∈ t.marked S qs ↔
    x.1 ∈ qs ∧ (t.objects x.1).session = S ∧ (t.objects x.1).fromReset = x.2 := by
  unfold Table.marked
  rw [List.mem_map]
  constructor
  · rintro ⟨q, hq, rfl⟩
    rw [List.mem_filter, decide_eq_true_eq] at hq
    exact ⟨hq.1, hq.2, rfl⟩
  · rintro ⟨hmem, hs, hf⟩
    refine ⟨x.1, List.mem_filter.2 ⟨hmem, by simpa using hs⟩, ?_⟩
    rw [hf]

theorem marked_eq_nil {qs : List Ref} :
    t.marked S qs = [] ↔ ∀ q ∈ qs, (t.objects q).session ≠ S := by
  unfold Table.marked
  rw [List.map_eq_nil_iff, List.filter_eq_nil_iff]
  simp

/-- The line depends on these. -/
theorem line_congr (hturns : turns S t'.log = turns S t.log)
    (hqueue : t'.marked S t'.vadJobs = t.marked S t.vadJobs)
    (hheld : t'.vadSessions S = t.vadSessions S) (hnext : t'.next = t.next) :
    t'.line S = t.line S := by
  unfold Table.line
  rw [hturns, hqueue, hheld, hnext]

theorem vadJobs_congr (hvadLane : t'.vadLane = t.vadLane) (hvadRunning : t'.vadRunning = t.vadRunning) :
    t'.vadJobs = t.vadJobs := by
  unfold Table.vadJobs
  rw [hvadLane, hvadRunning]

/-! ## The VAD jobs of a sound table -/

theorem Sound.mem_vadJobs (h : Sound t loose) (hvad : (t.objects q).vad = true)
    (hq : q ∈ t.jobs) : q ∈ t.vadJobs ∨ q ∈ loose := by
  have hmain : q ∉ t.refs ++ t.running.toList := by
    intro hmem
    rw [h.main q hmem] at hvad
    cases hvad
  have hplaced := mem_placed_iff.1 ((h.mem_placed q).2 hq)
  unfold Table.waiting at hplaced
  unfold Table.vadJobs
  simp only [List.mem_append, Option.mem_toList, not_or] at hmain hplaced ⊢
  tauto

theorem Sound.job_of_vadJobs (h : Sound t loose) (hq : q ∈ t.vadJobs) : q ∈ t.jobs := by
  refine (h.mem_placed q).1 (mem_placed_iff.2 ?_)
  unfold Table.vadJobs at hq
  unfold Table.waiting
  simp only [List.mem_append, Option.mem_toList] at hq ⊢
  tauto

theorem Sound.vad_of_vadJobs (h : Sound t loose) (hq : q ∈ t.vadJobs) :
    (t.objects q).vad = true := by
  apply h.vad q
  unfold Table.vadJobs at hq
  simp only [List.mem_append] at hq ⊢
  exact hq.symm

theorem Sound.nodup_vadJobs (h : Sound t loose) : t.vadJobs.Nodup := by
  have hlane : t.vadLane.Nodup := (List.nodup_append.1 h.nodup_waiting).2.1
  unfold Table.vadJobs
  cases hrunning : t.vadRunning with
  | none => exact hlane
  | some q =>
    rw [Option.toList_some, List.singleton_append, List.nodup_cons]
    refine ⟨fun hmem => ?_, hlane⟩
    exact h.not_vadRunning_of_waiting (List.mem_append_right _ hmem) hrunning

/-! ## A job leaves the line -/

/-- The entry of a session behind `resetNext`. -/
theorem resetNext_held (t : Table σ) (s : Session) (ending : Option Ref) {live : Prop}
    [Decidable live] (hlive : (t.jobs.any fun q => (t.objects q).vad && (t.objects q).session = s &&
      some q ≠ ending) = true ↔ live) (S : Session) :
    (t.resetNext s ending).vadSessions S =
      if S = s then flagged (t.vadSessions s) live else t.vadSessions S := by
  unfold Table.resetNext flagged
  cases hheld : t.vadSessions s with
  | some held => rfl
  | none =>
    dsimp only
    by_cases h : live
    · rw [if_pos (hlive.2 h), if_pos h]
      rfl
    · rw [if_neg fun hany => h (hlive.1 hany), if_neg h]
      split_ifs with hS
      · rw [hS, hheld]
      · rfl

/-- A job of the session other than the one that ends. -/
theorem Sound.any_iff (h : Sound t loose) (hloose : ∀ q ∈ loose, q = r)
    (hrunning : t.vadRunning ≠ some r) (S : Session) :
    (t.jobs.any fun q => (t.objects q).vad && (t.objects q).session = S && some q ≠ some r) = true ↔
      t.marked S (t.vadRunning.toList ++ t.vadLane.erase r) ≠ [] := by
  have hlane : t.vadLane.Nodup := (List.nodup_append.1 h.nodup_waiting).2.1
  rw [List.any_eq_true, ne_eq, marked_eq_nil]
  push Not
  constructor
  · rintro ⟨q, hq, hany⟩
    simp only [Bool.and_eq_true, decide_eq_true_eq, ne_eq, Option.some.injEq] at hany
    obtain ⟨⟨hvad, hs⟩, hne⟩ := hany
    rcases h.mem_vadJobs hvad hq with hmem | hmem
    · refine ⟨q, ?_, hs⟩
      unfold Table.vadJobs at hmem
      rw [List.mem_append] at hmem ⊢
      exact hmem.imp_right fun hmem => (hlane.mem_erase_iff).2 ⟨hne, hmem⟩
    · exact absurd (hloose q hmem) hne
  · rintro ⟨q, hq, hs⟩
    have hne : q ≠ r := by
      rintro rfl
      rw [List.mem_append] at hq
      rcases hq with hq | hq
      · exact hrunning (Option.mem_toList.1 hq)
      · exact (hlane.mem_erase_iff.1 hq).1 rfl
    have hmem : q ∈ t.vadJobs := by
      unfold Table.vadJobs
      rw [List.mem_append] at hq ⊢
      exact hq.imp_right List.mem_of_mem_erase
    refine ⟨q, h.job_of_vadJobs hmem, ?_⟩
    simp [h.vad_of_vadJobs hmem, hs, hne]

/-- **What the end of a VAD job leaves of its line**: `B` are the jobs behind
it. The first of them in the session is marked, or the session is. -/
theorem interrupt_marked {A B : List Ref}
    (hdrop : (t.vadLane.erase r).drop (t.placeBehind r) = B) (hnodup : (A ++ B).Nodup)
    (hS : (t.objects r).session = S) :
    (∃ y g back, t.marked S B = (y, g) :: back ∧
      (t.interrupt r).marked S (A ++ B) = t.marked S A ++ (y, true) :: back ∧
      (t.interrupt r).vadSessions = t.vadSessions) ∨
    (t.marked S B = [] ∧ (t.interrupt r).marked S (A ++ B) = t.marked S A ∧
      (t.interrupt r).vadSessions = (t.resetNext S (some r)).vadSessions) := by
  unfold Table.interrupt
  dsimp only
  rw [hS]
  have hfind : ((t.vadLane.erase r).drop (t.placeBehind r)).find?
      (fun q => (t.objects q).session = S) = (B.filter fun q => (t.objects q).session = S).head? := by
    rw [hdrop, List.head?_filter]
  rw [hfind]
  cases hfilter : B.filter fun q => (t.objects q).session = S with
  | nil =>
    right
    rw [List.head?_nil]
    dsimp only
    have hnil : t.marked S B = [] := by
      unfold Table.marked
      rw [hfilter]
      rfl
    refine ⟨hnil, ?_, ?_⟩
    · obtain ⟨held, heq⟩ := resetNext_steady { t with vadLane := t.vadLane.erase r } S (some r)
      rw [heq]
      change t.marked S (A ++ B) = _
      rw [marked_append, hnil, List.append_nil]
    · unfold Table.resetNext Table.setSession
      dsimp only
      cases t.vadSessions S with
      | some held => rfl
      | none =>
        dsimp only
        split_ifs
        · rfl
        · rfl
  | cons y rest =>
    left
    rw [List.head?_cons]
    dsimp only
    have hy : y ∈ B ∧ (t.objects y).session = S := by
      have hmem : y ∈ B.filter fun q => (t.objects q).session = S := by
        rw [hfilter]
        exact List.mem_cons_self
      simpa using hmem
    -- No other job of the line is marked.
    have hothers : ∀ q, q ≠ y → ((t.setJob y { t.objects y with fromReset := true }).objects q) =
        t.objects q := fun q hq => if_neg hq
    have hself : (t.setJob y { t.objects y with fromReset := true }).objects y =
        { t.objects y with fromReset := true } := if_pos rfl
    refine ⟨y, (t.objects y).fromReset, rest.map fun q => (q, (t.objects q).fromReset), ?_, ?_, rfl⟩
    · unfold Table.marked
      rw [hfilter]
      rfl
    · change (t.setJob y { t.objects y with fromReset := true }).marked S (A ++ B) = _
      have hsession : ∀ q, ((t.setJob y { t.objects y with fromReset := true }).objects q).session =
          (t.objects q).session := by
        intro q
        by_cases hq : q = y
        · rw [hq, hself]
          rfl
        · rw [hothers q hq]
      rw [marked_append]
      congr 1
      · apply marked_congr
        intro q hq
        have hne : q ≠ y := fun heq => (List.nodup_append.1 hnodup).2.2 q hq y hy.1 heq
        rw [hothers q hne]
        exact ⟨rfl, rfl⟩
      · unfold Table.marked
        simp only [hsession]
        rw [hfilter, List.map_cons, hself]
        congr 1
        apply List.map_congr_left
        intro q hq
        have hne : q ≠ y := by
          rintro rfl
          have hnodup' : (B.filter fun q => (t.objects q).session = S).Nodup :=
            (List.nodup_append.1 hnodup).2.1.filter _
          rw [hfilter, List.nodup_cons] at hnodup'
          exact hnodup'.1 hq
        rw [hothers q hne]

/-- Another session does not notice. -/
theorem interrupt_others (t : Table σ) (r : Ref) (hS : (t.objects r).session ≠ S)
    (qs : List Ref) : (t.interrupt r).marked S qs = t.marked S qs ∧
      (t.interrupt r).vadSessions S = t.vadSessions S := by
  unfold Table.interrupt
  dsimp only
  split
  · rename_i y hfind
    have hy : (t.objects y).session = (t.objects r).session := by
      simpa using List.find?_some hfind
    refine ⟨?_, rfl⟩
    unfold Table.marked
    have hfilter : (qs.filter fun q => ((({ t with vadLane := t.vadLane.erase r } : Table σ).setJob y
        { t.objects y with fromReset := true }).objects q).session = S) =
        qs.filter fun q => (t.objects q).session = S := by
      apply List.filter_congr
      intro q hq
      by_cases hqy : q = y
      · simp [Table.setJob, hqy, Job.session]
      · simp [Table.setJob, hqy]
    rw [hfilter]
    apply List.map_congr_left
    intro q hq
    have hqS : (t.objects q).session = S := by simpa using List.of_mem_filter hq
    have hne : q ≠ y := by
      rintro rfl
      exact hS (hy.symm.trans hqS)
    simp [Table.setJob, hne]
  · obtain ⟨held, heq⟩ := resetNext_steady { t with vadLane := t.vadLane.erase r }
      (t.objects r).session (some r)
    refine ⟨by rw [heq]; rfl, ?_⟩
    unfold Table.resetNext Table.setSession
    dsimp only
    cases t.vadSessions (t.objects r).session with
    | some held => exact if_neg fun h => hS h.symm
    | none =>
      dsimp only
      split_ifs
      · exact if_neg fun h => hS h.symm
      · rfl

/-- The answer to the release of the session, where the job was the last of
it. -/
theorem Dropped.line {held : Session → Option (VadSession σ)} {sent : List (Entry σ)}
    (h : Dropped t t' r held sent) (hsound : Sound t' [])
    (hsame : ∀ q ∈ t'.jobs, (t'.objects q).session = (t.objects q).session) (S : Session) :
    Relation.ReflTransGen Line.Step
      ⟨turns S t.log ++ turns S sent, t'.marked S t'.vadJobs, held S, t.next⟩ (t'.line S) := by
  by_cases hs : SettlesWithout t r
  · obtain ⟨-, hheld, hlog⟩ := h.settled hs
    by_cases hS : S = (t.objects r).session
    · have hqueue : t'.marked S t'.vadJobs = [] := by
        rw [marked_eq_nil]
        intro q hq heq
        have hjob := hsound.job_of_vadJobs hq
        rw [hsame q hjob] at heq
        rw [h.jobs] at hjob
        exact hs.2 q hjob (heq.trans hS)
      have hnone : t'.vadSessions S = none := by
        rw [hheld]
        exact if_pos hS
      have hline : t'.line S = ⟨(turns S t.log ++ turns S sent) ++ [.cleared],
          t'.marked S t'.vadJobs, none, t.next⟩ := by
        unfold Table.line
        rw [hlog, hnone, h.next]
        simp [turns, Entry.turn?, hS]
      rw [hline]
      exact Relation.ReflTransGen.single (Line.Step.cleared hqueue)
    · have hsome : t'.vadSessions S = held S := by
        rw [hheld]
        exact if_neg hS
      have hline : t'.line S = ⟨turns S t.log ++ turns S sent, t'.marked S t'.vadJobs, held S,
          t.next⟩ := by
        unfold Table.line
        rw [hlog, hsome, h.next]
        simp [turns, Entry.turn?, Ne.symm hS]
      rw [hline]
  · obtain ⟨-, hheld, hlog⟩ := h.unsettled hs
    have hline : t'.line S = ⟨turns S t.log ++ turns S sent, t'.marked S t'.vadJobs, held S,
        t.next⟩ := by
      unfold Table.line
      rw [hlog, hheld, h.next, turns_append]
    rw [hline]

theorem Removed.session_eq (h : Removed t t' r) (hsound : Sound t loose) (q : Ref)
    (hq : q ∈ t'.jobs) : (t'.objects q).session = (t.objects q).session := by
  rw [h.jobs, hsound.nodup.mem_erase_iff] at hq
  exact core_session (h.others q hq.1)

theorem turns_ended (S : Session) (r : Ref) (i : JobIdentity) (error : ErrorObject) :
    turns S [(.sent (.event r i (.failed error)) : Entry σ), .sent (.event r i .released)] = [] := rfl

/-- The jobs that are left behind the end of a VAD job. -/
theorem Ended.marked {error : ErrorObject} (h : Ended t (t.leaveLane r) t' r error)
    (hvad : (t.objects r).vad = true) {A B : List Ref}
    (hrefs : t.vadRunning.toList ++ t.vadLane.erase r = A ++ B) (hr : r ∉ A ++ B) :
    t'.marked S t'.vadJobs = (t.interrupt r).marked S (A ++ B) := by
  have hleft := leaveLane_spec t r
  have hleave : t.leaveLane r = t.interrupt r := if_pos hvad
  have hjobs : t'.vadJobs = A ++ B := by
    unfold Table.vadJobs
    rw [h.vadRunning, h.vadLane, hleft.vadLane, if_pos hvad, hrefs]
  rw [hjobs]
  apply marked_congr
  intro q hq
  have hne : q ≠ r := fun heq => hr (heq ▸ hq)
  rw [h.others q hne, hleave]
  exact ⟨rfl, rfl⟩

/-- **The end of a VAD job of the session drops it from the line.** -/
theorem Ended.line {error : ErrorObject} (h : Ended t (t.leaveLane r) t' r error)
    (hsound : Sound t loose) (hloose : ∀ q ∈ loose, q = r) (hrunning : t.vadRunning ≠ some r)
    (hremoved : Removed t t' r) (hsound' : Sound t' []) (hvad : (t.objects r).vad = true)
    (hS : (t.objects r).session = S) {A B : List Ref}
    (hrefs : t.vadRunning.toList ++ t.vadLane.erase r = A ++ B)
    (hdrop : (t.vadLane.erase r).drop (t.placeBehind r) = B) {l : Line σ} {f : Bool}
    (hturns : l.turns = turns S t.log) (hqueue : l.queue = t.marked S A ++ (r, f) :: t.marked S B)
    (hheld : l.held = t.vadSessions S) (hnext : l.next = t.next) :
    Relation.ReflTransGen Line.Step l (t'.line S) := by
  have hlane : t.vadLane.Nodup := (List.nodup_append.1 hsound.nodup_waiting).2.1
  have hnodup : (A ++ B).Nodup := by
    rw [← hrefs]
    refine hsound.nodup_vadJobs.sublist ?_
    exact List.Sublist.append (List.Sublist.refl _) List.erase_sublist
  have hr : r ∉ A ++ B := by
    rw [← hrefs, List.mem_append]
    rintro (hmem | hmem)
    · exact hrunning (Option.mem_toList.1 hmem)
    · exact (hlane.mem_erase_iff.1 hmem).1 rfl
  have hleave : t.leaveLane r = t.interrupt r := if_pos hvad
  have hmarked := h.marked (S := S) hvad hrefs hr
  have hrest := h.toDropped.line hsound' (hremoved.session_eq hsound) S
  rw [turns_ended, List.append_nil, hleave] at hrest
  refine Relation.ReflTransGen.head ?_ hrest
  rcases interrupt_marked hdrop hnodup hS with ⟨y, g, back, hB, hleft, hsame⟩ | ⟨hB, hleft, hsame⟩
  · rw [hmarked, hleft, hsame, ← hheld, ← hnext, ← hturns]
    rw [hB] at hqueue
    exact Line.Step.dropped hqueue
  · rw [hB] at hqueue
    have hlive : (t.jobs.any fun q => (t.objects q).vad && (t.objects q).session = S &&
        some q ≠ some r) = true ↔ t.marked S A ≠ [] := by
      rw [hsound.any_iff hloose hrunning, hrefs, marked_append, hB, List.append_nil]
    rw [hmarked, hleft, hsame, resetNext_held t S (some r) hlive, if_pos rfl, ← hheld, ← hnext,
      ← hturns]
    exact Line.Step.droppedLast hqueue

theorem marked_erase (hS : (t.objects r).session ≠ S) (qs : List Ref) :
    t.marked S (qs.erase r) = t.marked S qs := by
  by_cases hmem : r ∈ qs
  · obtain ⟨a, b, hr, rfl, heq⟩ := List.exists_erase_eq hmem
    rw [heq, marked_append, marked_append, marked_cons_of_ne hS]
  · rw [List.erase_of_not_mem hmem]

/-- The end of any other job is no matter of the line. -/
theorem Ended.line_other {error : ErrorObject} (h : Ended t (t.leaveLane r) t' r error)
    (hsound : Sound t loose) (hremoved : Removed t t' r) (hsound' : Sound t' [])
    (hother : (t.objects r).vad = true → (t.objects r).session ≠ S) :
    Relation.ReflTransGen Line.Step (t.line S) (t'.line S) := by
  have hleft := leaveLane_spec t r
  have hrest := h.toDropped.line hsound' (hremoved.session_eq hsound) S
  rw [turns_ended, List.append_nil] at hrest
  have hline : t.line S = ⟨turns S t.log, t'.marked S t'.vadJobs, (t.leaveLane r).vadSessions S,
      t.next⟩ := by
    unfold Table.line
    by_cases hvad : (t.objects r).vad = true
    · have hS := hother hvad
      have hleave : t.leaveLane r = t.interrupt r := if_pos hvad
      obtain ⟨hmarked, hheld⟩ := interrupt_others t r hS (t.vadRunning.toList ++ t.vadLane.erase r)
      rw [hleave, hheld]
      congr 1
      have hjobs : t'.vadJobs = t.vadRunning.toList ++ t.vadLane.erase r := by
        unfold Table.vadJobs
        rw [h.vadRunning, h.vadLane, hleft.vadLane, if_pos hvad]
      have hold : t.marked S t.vadJobs = t.marked S (t.vadRunning.toList ++ t.vadLane.erase r) := by
        unfold Table.vadJobs
        rw [marked_append, marked_append, marked_erase hS]
      rw [hold, ← hmarked, hjobs]
      -- The job itself may be read differently, but it is of another session.
      unfold Table.marked
      have hsession : ∀ q, ((t.interrupt r).objects q).session = (t'.objects q).session := by
        intro q
        by_cases hq : q = r
        · unfold Job.session
          rw [hq, h.identity, ← hleave, (core_eq (hleft.core r)).1]
        · rw [h.others q hq, hleave]
      simp only [hsession]
      apply List.map_congr_left
      intro q hq
      have hqS : (t'.objects q).session = S := by simpa using List.of_mem_filter hq
      have hne : q ≠ r := by
        rintro rfl
        unfold Job.session at hqS hS
        rw [h.identity] at hqS
        exact hS hqS
      rw [h.others q hne, hleave]
    · have hleave : t.leaveLane r =
          { t with lane := t.lane.eraseP fun work => work.ref? = some r } := if_neg hvad
      rw [hleave]
      congr 1
      have hjobs : t'.vadJobs = t.vadJobs := by
        unfold Table.vadJobs
        rw [h.vadRunning, h.vadLane, hleft.vadLane, if_neg hvad]
      rw [hjobs]
      symm
      apply marked_congr
      intro q hq
      have hne : q ≠ r := by
        rintro rfl
        exact hvad (hsound.vad_of_vadJobs hq)
      rw [h.others q hne, hleave]
      exact ⟨rfl, rfl⟩
  rw [hline]
  exact hrest

/-! ## Every change is a step of the line -/

theorem turn?_of_answer {e : Entry σ} (h : e.IsAnswer) : e.turn? S = none := by
  obtain ⟨messageId, error, rfl⟩ := h
  rfl

theorem turns_arrived (header : Header) (r : Ref) (more : List (Entry σ))
    (hmore : ∀ e ∈ more, e.turn? S = none) : turns S ((.arrived r header : Entry σ) :: more) =
      if Table.vadSession? header = some S then [.arrived r] else [] := by
  have hnil := turns_eq_nil hmore
  unfold turns at hnil ⊢
  rw [List.filterMap_cons, hnil]
  by_cases hheader : Table.vadSession? header = some S
  · simp [Entry.turn?, hheader]
  · simp [Entry.turn?, hheader]

/-- A job of the session is live. -/
theorem Sound.any_none_iff (h : Sound t []) (S : Session) :
    (t.jobs.any fun q => (t.objects q).vad && (t.objects q).session = S && some q ≠ none) = true ↔
      t.marked S t.vadJobs ≠ [] := by
  rw [List.any_eq_true, ne_eq, marked_eq_nil]
  push Not
  constructor
  · rintro ⟨q, hq, hany⟩
    simp only [Bool.and_eq_true, decide_eq_true_eq, ne_eq, reduceCtorEq, not_false_eq_true,
      and_true] at hany
    rcases h.mem_vadJobs hany.1 hq with hmem | hmem
    · exact ⟨q, hmem, hany.2⟩
    · cases hmem
  · rintro ⟨q, hq, hs⟩
    refine ⟨q, h.job_of_vadJobs hq, ?_⟩
    simp [h.vad_of_vadJobs hq, hs]

/-- A submit that runs nothing. -/
theorem unread_line (hsound : Sound t []) {header : Header} {answers : List (Entry σ)}
    (hanswers : ∀ e ∈ answers, e.IsAnswer) (S : Session) :
    Line.Step (t.line S) (((t.noted header answers).resetUnrun header).line S) := by
  obtain ⟨held, heq⟩ := resetUnrun_frame (t.noted header answers) header
  have hlog : turns S ((t.noted header answers).resetUnrun header).log = turns S t.log ++
      if Table.vadSession? header = some S then [.arrived t.next] else [] := by
    rw [heq]
    change turns S ((t.log ++ [.arrived t.next header]) ++ answers) = _
    rw [List.append_assoc, turns_append, List.singleton_append,
      turns_arrived _ _ _ fun e he => turn?_of_answer (hanswers e he)]
  have hqueue : ((t.noted header answers).resetUnrun header).marked S
      ((t.noted header answers).resetUnrun header).vadJobs = t.marked S t.vadJobs := by
    rw [heq]
    rfl
  have hnext : ((t.noted header answers).resetUnrun header).next = t.next + 1 := by
    rw [heq]
    rfl
  have hheld : ((t.noted header answers).resetUnrun header).vadSessions S =
      if Table.vadSession? header = some S then
        flagged (t.vadSessions S) (t.marked S t.vadJobs ≠ []) else t.vadSessions S := by
    unfold Table.resetUnrun
    cases hs : Table.vadSession? header with
    | none => rfl
    | some s =>
      dsimp only
      rw [resetNext_held (t.noted header answers) s none (hsound.any_none_iff s) S]
      by_cases hS : S = s
      · rw [if_pos hS, if_pos (by rw [hS]), hS]
        rfl
      · rw [if_neg hS, if_neg fun h => hS (Option.some.inj h).symm]
        rfl
  unfold Table.line
  rw [hlog, hqueue, hheld, hnext]
  split_ifs
  · exact Line.Step.missed
  · rw [List.append_nil]
    exact Line.Step.passed (Nat.le_succ _)

/-- The line of a table with a new job object. -/
theorem made_line (hsound : Sound t []) (header : Header) (job : Job) :
    (t.made header job).line S = ⟨turns S t.log ++
      if Table.vadSession? header = some S then [.arrived t.next] else [],
      t.marked S t.vadJobs, t.vadSessions S, t.next + 1⟩ := by
  have hlog : turns S (t.made header job).log = turns S t.log ++
      if Table.vadSession? header = some S then [.arrived t.next] else [] := by
    change turns S (t.log ++ [.arrived t.next header]) = _
    rw [turns_append, turns_arrived _ _ [] fun e he => by cases he]
  have hqueue : (t.made header job).marked S (t.made header job).vadJobs = t.marked S t.vadJobs := by
    change (t.made header job).marked S t.vadJobs = _
    apply marked_congr
    intro q hq
    rw [made_other t header job (hsound.ne_next (hsound.job_of_vadJobs hq))]
    exact ⟨rfl, rfl⟩
  unfold Table.line
  rw [hlog, hqueue]
  rfl

/-- A submit that is refused runs nothing either. -/
theorem refused_line (hsound : Sound t []) {header : Header} {job : Job} {error : ErrorObject}
    (hmade : Made t header job)
    (h : Ended (t.made header job) ((t.made header job).leaveLane t.next) t' t.next error)
    (hsound' : Sound t' []) (S : Session) :
    Relation.ReflTransGen Line.Step (t.line S) (t'.line S) := by
  have hmadeSound := hsound.made header job
  have hremoved := h.removed hmadeSound (hmade.ids hsound)
  have hobject := made_object t header job
  have hline := made_line (S := S) hsound header job
  by_cases hown : job.vad = true ∧ job.session = S
  · obtain ⟨hvad, hS⟩ := hown
    have hheader : Table.vadSession? header = some S := by
      rw [hmade.vad, if_pos hvad, hS]
    have hvad' : ((t.made header job).objects t.next).vad = true := by rw [hobject]; exact hvad
    have hS' : ((t.made header job).objects t.next).session = S := by rw [hobject]; exact hS
    have hnot : t.next ∉ t.vadJobs := fun hmem => hsound.ne_next (hsound.job_of_vadJobs hmem) rfl
    have hlane : t.next ∉ (t.made header job).vadLane := fun hmem =>
      hnot (List.mem_append_right _ hmem)
    have herase : (t.made header job).vadLane.erase t.next = (t.made header job).vadLane :=
      List.erase_of_not_mem hlane
    have hrefs : (t.made header job).vadRunning.toList ++
        (t.made header job).vadLane.erase t.next = t.vadJobs ++ [] := by
      rw [herase, List.append_nil]
      rfl
    have hfind : (t.made header job).find ((t.made header job).objects t.next).identity.jobId =
        none := by
      unfold Table.find
      rw [List.find?_eq_none]
      intro q hq hid
      have hid' : ((t.made header job).objects q).identity.jobId =
          ((t.made header job).objects t.next).identity.jobId := by simpa using hid
      exact hsound.ne_next hq (hmade.ids hsound q hq hid')
    have hplace : (t.made header job).placeBehind t.next = (t.made header job).vadLane.length := by
      unfold Table.placeBehind
      rw [if_neg hlane, hfind]
      rfl
    have hdrop : ((t.made header job).vadLane.erase t.next).drop
        ((t.made header job).placeBehind t.next) = [] := by
      rw [herase, hplace, List.drop_length]
    have hrunning : (t.made header job).vadRunning ≠ some t.next := fun hrun =>
      hnot (List.mem_append_left _ (Option.mem_toList.2 hrun))
    have hnodup : (t.vadJobs ++ []).Nodup := by
      rw [List.append_nil]
      exact hsound.nodup_vadJobs
    have hrest := h.toDropped.line hsound' (hremoved.session_eq hmadeSound) S
    have hleave : (t.made header job).leaveLane t.next = (t.made header job).interrupt t.next :=
      if_pos hvad'
    rw [turns_ended, List.append_nil, hleave, h.marked hvad' hrefs (by rwa [List.append_nil])]
      at hrest
    refine Relation.ReflTransGen.head ?_ hrest
    rcases interrupt_marked hdrop hnodup hS' with ⟨y, g, back, hB, -⟩ | ⟨-, hleft, hsame⟩
    · cases hB
    · have hlive : ((t.made header job).jobs.any fun q => ((t.made header job).objects q).vad &&
          ((t.made header job).objects q).session = S && some q ≠ some t.next) = true ↔
          t.marked S t.vadJobs ≠ [] := by
        rw [hmadeSound.any_iff (fun q hq => by cases hq) hrunning, hrefs, List.append_nil]
        have hqueue := congrArg Line.queue hline
        dsimp only [Table.line] at hqueue
        change (t.made header job).marked S t.vadJobs = _ at hqueue
        rw [hqueue]
      have hqueue := congrArg Line.queue hline
      change (t.made header job).marked S t.vadJobs = _ at hqueue
      have hturns := congrArg Line.turns hline
      change turns S (t.made header job).log = _ at hturns
      rw [hleft, hsame, resetNext_held _ S _ hlive, if_pos rfl, hqueue, hturns, if_pos hheader]
      exact Line.Step.missed
  · have hheader : Table.vadSession? header ≠ some S := by
      rw [hmade.vad]
      split_ifs with hvad
      · intro heq
        exact hown ⟨hvad, Option.some.inj heq⟩
      · simp
    have hother : ((t.made header job).objects t.next).vad = true →
        ((t.made header job).objects t.next).session ≠ S := by
      rw [hobject]
      exact fun hvad hS => hown ⟨hvad, hS⟩
    refine Relation.ReflTransGen.head ?_ (h.line_other hmadeSound hremoved hsound' hother)
    rw [hline, if_neg hheader, List.append_nil]
    exact Line.Step.passed (Nat.le_succ _)

/-- A submit that is admitted. -/
theorem accepted_line (hsound : Sound t []) {header : Header} {job : Job}
    (hadmitted : Admitted t header job) (h : Accepted (t.made header job) t' t.next) (S : Session) :
    Line.Step (t.line S) (t'.line S) := by
  have hobject := made_object t header job
  have hline := made_line (S := S) hsound header job
  have hturns : turns S t'.log = turns S t.log ++
      if Table.vadSession? header = some S then [.arrived t.next] else [] := by
    rw [h.log, turns_quiet (by simp [Entry.turn?])]
    exact congrArg Line.turns hline
  have hold : ∀ q ∈ t.vadJobs, t'.objects q = t.objects q := by
    intro q hq
    have hne := hsound.ne_next (hsound.job_of_vadJobs hq)
    rw [h.others q hne, made_other t header job hne]
  have hmarked : t'.marked S t.vadJobs = t.marked S t.vadJobs := by
    apply marked_congr
    intro q hq
    rw [hold q hq]
    exact ⟨rfl, rfl⟩
  have hsession : (t'.objects t.next).session = job.session := by
    rw [h.object]
    unfold Table.admitted Job.session
    rw [hobject]
  have hnext : t'.next = t.next + 1 := h.next
  by_cases hown : job.vad = true ∧ job.session = S
  · obtain ⟨hvad, hS⟩ := hown
    have hheader : Table.vadSession? header = some S := by
      rw [hadmitted.vad, if_pos hvad, hS]
    have hjobs : t'.vadJobs = t.vadJobs ++ [t.next] := by
      unfold Table.vadJobs
      rw [h.vadRunning, h.vadLane, hobject, if_pos hvad, ← List.append_assoc]
      rfl
    have hreset : (t'.objects t.next).fromReset = resets (t.vadSessions S) := by
      rw [h.object]
      unfold Table.admitted Table.entryOf
      rw [hobject, if_pos hvad, hS]
      rfl
    have hqueue : t'.marked S t'.vadJobs =
        t.marked S t.vadJobs ++ [(t.next, resets (t.vadSessions S))] := by
      rw [hjobs, marked_append, hmarked, marked_cons (hsession.trans hS), hreset]
      rfl
    have hheld : t'.vadSessions S =
        (t.vadSessions S).map fun held => { held with resetNext := false } := by
      rw [h.vadSessions, hobject]
      exact if_pos ⟨hvad, hS.symm⟩
    unfold Table.line
    rw [hturns, if_pos hheader, hqueue, hheld, hnext]
    exact Line.Step.joined
  · have hheader : Table.vadSession? header ≠ some S := by
      rw [hadmitted.vad]
      split_ifs with hvad
      · intro heq
        exact hown ⟨hvad, Option.some.inj heq⟩
      · simp
    have hqueue : t'.marked S t'.vadJobs = t.marked S t.vadJobs := by
      unfold Table.vadJobs at hmarked ⊢
      rw [h.vadRunning, h.vadLane, hobject]
      split_ifs with hvad
      · have hne : (t'.objects t.next).session ≠ S := by
          rw [hsession]
          exact fun hS => hown ⟨hvad, hS⟩
        rw [← List.append_assoc, marked_append, marked_cons_of_ne hne]
        change t'.marked S (t.vadRunning.toList ++ t.vadLane) ++ t'.marked S [] = _
        rw [hmarked]
        exact List.append_nil _
      · exact hmarked
    have hheld : t'.vadSessions S = t.vadSessions S := by
      rw [h.vadSessions, hobject]
      exact if_neg fun hs => hown ⟨hs.1, hs.2.symm⟩
    unfold Table.line
    rw [hturns, if_neg hheader, List.append_nil, hqueue, hheld, hnext]
    exact Line.Step.passed (Nat.le_succ _)

theorem Acknowledged.line (h : Acknowledged t t' r) (S : Session) : t'.line S = t.line S := by
  refine line_congr ?_ ?_ (by rw [h.vadSessions]) h.next
  · rw [h.log, turns_quiet (by simp [Entry.turn?])]
  · rw [vadJobs_congr h.vadLane h.vadRunning]
    apply marked_congr
    intro q hq
    by_cases hqr : q = r
    · rw [hqr, h.object]
      exact ⟨rfl, rfl⟩
    · rw [h.others q hqr]
      exact ⟨rfl, rfl⟩

/-- The place behind a job that waits is its own. -/
theorem placeBehind_waiting {a b : List Ref} (hlane : t.vadLane = a ++ r :: b) (ha : r ∉ a) :
    t.vadLane.erase r = a ++ b ∧ (t.vadLane.erase r).drop (t.placeBehind r) = b := by
  have herase : t.vadLane.erase r = a ++ b := by
    rw [hlane, List.erase_append_right _ ha, List.erase_cons_head]
  have hplace : t.placeBehind r = a.length := by
    unfold Table.placeBehind
    rw [if_pos (by rw [hlane]; simp), hlane, List.idxOf_append_of_notMem ha, List.idxOf_cons_self]
    rfl
  refine ⟨herase, ?_⟩
  rw [herase, hplace]
  exact List.drop_left

/-- A job that waits ends. -/
theorem Ended.line_waiting {error : ErrorObject} (h : Ended t (t.leaveLane r) t' r error)
    (hsound : Sound t []) (hsound' : Sound t' []) (hr : r ∈ t.waiting) (S : Session) :
    Relation.ReflTransGen Line.Step (t.line S) (t'.line S) := by
  have hremoved := h.removed hsound fun q hq hid => hsound.ids q hq r (hsound.job_of_waiting hr) hid
  by_cases hown : (t.objects r).vad = true ∧ (t.objects r).session = S
  · obtain ⟨hvad, hS⟩ := hown
    have hlane : r ∈ t.vadLane := by
      unfold Table.waiting at hr
      rcases List.mem_append.1 hr with hr | hr
      · rw [hsound.main r (List.mem_append_left _ hr)] at hvad
        cases hvad
      · exact hr
    obtain ⟨a, b, hab⟩ := List.append_of_mem hlane
    have hnodup : t.vadLane.Nodup := (List.nodup_append.1 hsound.nodup_waiting).2.1
    have ha : r ∉ a := by
      intro hmem
      rw [hab] at hnodup
      exact (List.nodup_append.1 hnodup).2.2 r hmem r List.mem_cons_self rfl
    obtain ⟨herase, hdrop⟩ := placeBehind_waiting hab ha
    refine h.line hsound (fun q hq => by cases hq) (hsound.not_vadRunning_of_waiting hr) hremoved
      hsound' hvad hS (A := t.vadRunning.toList ++ a) (B := b) ?_ hdrop
      (f := (t.objects r).fromReset) rfl ?_ rfl rfl
    · rw [herase, List.append_assoc]
    · change t.marked S t.vadJobs = _
      unfold Table.vadJobs
      rw [hab, ← List.append_assoc, marked_append, marked_cons hS]
  · exact h.line_other hsound hremoved hsound' fun hvad hS => hown ⟨hvad, hS⟩

/-- **Every reaction is a sequence of steps of each line.** -/
theorem Reaction.line (hsound : Sound t []) (hcalm : Calm t) (hreaction : Reaction t t')
    (S : Session) : Relation.ReflTransGen Line.Step (t.line S) (t'.line S) := by
  have hsound' := (hsound.reaction hcalm hreaction).1
  cases hreaction with
  | @note e he =>
    rw [show (t.mark e).line S = t.line S from line_congr ?_ rfl rfl rfl]
    refine turns_quiet fun e' he' => ?_
    rw [List.mem_singleton.1 he']
    exact turn?_of_answer he
  | unread hsubmit hanswers => exact Relation.ReflTransGen.single (unread_line hsound hanswers S)
  | refused hmade hended => exact refused_line hsound hmade hended hsound' S
  | accepted hadmitted haccepted =>
    exact Relation.ReflTransGen.single (accepted_line hsound hadmitted haccepted S)
  | acknowledged hr hc hack => rw [hack.line]
  | @cancelled t₁ _ r error hr hack hended =>
    rw [← hack.line S]
    refine hended.line_waiting (hack.sound hsound) hsound' ?_ S
    rwa [waiting_congr hack.lane hack.vadLane]
  | failed hr hended => exact hended.line_waiting hsound hsound' hr S
  | @pended s hs hlive =>
    rw [show Table.line { t with
      releasing := Function.update t.releasing s true, log := t.log ++ [.pending s] } S = t.line S
        from line_congr ?_ rfl rfl rfl]
    exact turns_quiet (by simp [Entry.turn?])
  | @released s hs hlive =>
    by_cases hS : S = s
    · refine Relation.ReflTransGen.single ?_
      have hqueue : (t.line S).queue = [] := by
        refine marked_eq_nil.2 fun q hq => ?_
        rw [hS]
        exact hlive q (hsound.job_of_vadJobs hq)
      have hstep := Line.Step.cleared hqueue
      unfold Table.line at hstep ⊢
      dsimp only at hstep ⊢
      rw [turns_append, show turns S [(.pending s : Entry σ), .sent (.sessionReleased s)] = [.cleared]
        by simp [turns, Entry.turn?, hS, List.filterMap_cons]]
      rw [hS, Function.update_self]
      rw [hS] at hstep
      exact hstep
    · rw [show Table.line { t with
        vadSessions := Function.update t.vadSessions s none
        log := t.log ++ [.pending s, .sent (.sessionReleased s)] } S = t.line S
          from line_congr ?_ rfl ?_ rfl]
      · change turns S (t.log ++ _) = _
        exact turns_quiet (by simp [Entry.turn?, Ne.symm hS])
      · exact Function.update_of_ne hS _ _

/-- A run lets go of its thread: the line is as it was, but for the job
itself. -/
theorem letGo_line (hsound : Sound t []) (hr : t.Runs r) (S : Session) :
    turns S (t.letGo r).log = turns S t.log ∧
    ((t.objects r).vad = true → t.vadJobs = r :: t.vadLane ∧ (t.letGo r).vadJobs = t.vadLane) ∧
    ((t.objects r).vad = false → (t.letGo r).vadJobs = t.vadJobs) := by
  obtain ⟨-, hvadLane, -, -, -, -, -, hlog⟩ := letGo_frame t r
  obtain ⟨-, hvadRunning⟩ := letGo_running t r
  refine ⟨?_, fun hvad => ?_, fun hvad => ?_⟩
  · rw [hlog]
    exact turns_quiet (by simp [Entry.turn?])
  · have hrunning : t.vadRunning = some r := by
      rcases hr with hr | hr
      · rw [hsound.main r (List.mem_append_right _ (by simp [hr]))] at hvad
        cases hvad
      · exact hr
    unfold Table.vadJobs
    rw [hvadRunning, if_pos hvad, hvadLane, hrunning]
    exact ⟨rfl, rfl⟩
  · unfold Table.vadJobs
    rw [hvadRunning, if_neg (by rw [hvad]; exact Bool.false_ne_true), hvadLane]

/-- A run of a job that is none of the session's VAD jobs ends. -/
theorem letGo_line_other (hsound : Sound t []) (hr : t.Runs r)
    (hother : (t.objects r).vad = true → (t.objects r).session ≠ S) :
    (t.letGo r).line S = t.line S := by
  obtain ⟨hturns, hvadJobs, hmain⟩ := letGo_line hsound hr S
  obtain ⟨-, -, -, hobjects, -, hnext, hheld, -⟩ := letGo_frame t r
  refine line_congr hturns ?_ (by rw [hheld]) hnext
  have hsame : ∀ qs, (t.letGo r).marked S qs = t.marked S qs := fun qs => marked_congr fun q _ => by
    rw [hobjects]
    exact ⟨rfl, rfl⟩
  rw [hsame]
  cases hvad : (t.objects r).vad with
  | true =>
    obtain ⟨hold, hnew⟩ := hvadJobs hvad
    rw [hold, hnew, marked_cons_of_ne (hother hvad)]
  | false => rw [hmain hvad]

/-- The run of a job fails. -/
theorem failedRun_line (hsound : Sound t []) (hr : t.Runs r) {error : ErrorObject}
    (h : Ended (t.letGo r) ((t.letGo r).leaveLane r) t' r error) (hsound' : Sound t' [])
    (S : Session) : Relation.ReflTransGen Line.Step (t.line S) (t'.line S) := by
  obtain ⟨hsound₁, -, hvadRunning⟩ := hsound.letGo hr
  obtain ⟨-, hvadLane, hjobs, hobjects, -, hnext, hheld, -⟩ := letGo_frame t r
  have hjob : r ∈ (t.letGo r).jobs := by
    rw [hjobs]
    exact hsound.job_of_runs hr
  have hremoved := h.removed hsound₁ fun q hq hid => hsound₁.ids q hq r hjob hid
  by_cases hown : (t.objects r).vad = true ∧ (t.objects r).session = S
  · obtain ⟨hvad, hS⟩ := hown
    obtain ⟨hturns, hvadJobs, -⟩ := letGo_line hsound hr S
    obtain ⟨hold, hnew⟩ := hvadJobs hvad
    have hlane : r ∉ (t.letGo r).vadLane := by
      rw [hvadLane]
      intro hmem
      exact hsound.not_waiting_of_runs hr (List.mem_append_right _ hmem)
    have hplace : (t.letGo r).placeBehind r = 0 := by
      unfold Table.placeBehind
      have hfind : ((t.letGo r).find ((t.letGo r).objects r).identity.jobId).isSome = true := by
        unfold Table.find
        rw [List.find?_isSome]
        exact ⟨r, hjob, by simp⟩
      rw [if_neg hlane, if_pos hfind]
    have hrefs : (t.letGo r).vadRunning.toList ++ (t.letGo r).vadLane.erase r =
        [] ++ (t.letGo r).vadLane := by
      have hnone : (t.letGo r).vadRunning = none := by
        rw [(letGo_running t r).2, if_pos hvad]
      rw [List.erase_of_not_mem hlane, hnone]
      rfl
    have hvad₁ : ((t.letGo r).objects r).vad = true := by rw [hobjects]; exact hvad
    have hS₁ : ((t.letGo r).objects r).session = S := by rw [hobjects]; exact hS
    refine h.line hsound₁ (fun q hq => List.mem_singleton.1 hq) hvadRunning hremoved hsound' hvad₁
      hS₁ (A := []) hrefs ?_ (f := (t.objects r).fromReset) hturns.symm ?_ (by rw [hheld]; rfl)
      hnext.symm
    · rw [hplace, List.erase_of_not_mem hlane]
      rfl
    · change t.marked S t.vadJobs = _
      rw [hold, marked_cons hS, hvadLane]
      have hsame : (t.letGo r).marked S t.vadLane = t.marked S t.vadLane := marked_congr fun q _ => by
        rw [hobjects]
        exact ⟨rfl, rfl⟩
      rw [hsame]
      rfl
  · have hother : (t.objects r).vad = true → (t.objects r).session ≠ S :=
      fun hvad hS => hown ⟨hvad, hS⟩
    rw [← letGo_line_other hsound hr hother]
    refine h.line_other hsound₁ hremoved hsound' ?_
    rw [hobjects]
    exact hother

/-- The run of a job completes. -/
theorem completedRun_line (hsound : Sound t []) (hr : t.Runs r) {rendered : Rendered}
    {state : Option σ} (h : Completed (t.letGo r) t' r rendered state) (hsound' : Sound t' [])
    (S : Session) : Relation.ReflTransGen Line.Step (t.line S) (t'.line S) := by
  obtain ⟨hsound₁, -, hvadRunning⟩ := hsound.letGo hr
  obtain ⟨hlane, hvadLane, hjobs, hobjects, -, hnext, hheld, -⟩ := letGo_frame t r
  have hjob : r ∈ (t.letGo r).jobs := by
    rw [hjobs]
    exact hsound.job_of_runs hr
  have hremoved := h.removed hsound₁
    (by rw [waiting_congr hlane hvadLane]; exact hsound.not_waiting_of_runs hr)
    fun q hq hid => hsound₁.ids q hq r hjob hid
  have hrest := h.toDropped.line hsound' (hremoved.session_eq hsound₁) S
  have hnot : r ∉ (t.letGo r).vadJobs := by
    intro hmem
    unfold Table.vadJobs at hmem
    rcases List.mem_append.1 hmem with hmem | hmem
    · exact hvadRunning (Option.mem_toList.1 hmem)
    · rw [hvadLane] at hmem
      exact hsound.not_waiting_of_runs hr (List.mem_append_right _ hmem)
  have hqueue : t'.marked S t'.vadJobs = (t.letGo r).marked S (t.letGo r).vadJobs := by
    rw [vadJobs_congr h.vadLane h.vadRunning]
    apply marked_congr
    intro q hq
    rw [h.others q fun heq => hnot (heq ▸ hq)]
    exact ⟨rfl, rfl⟩
  obtain ⟨request, hrequest, -⟩ := (hsound.live r (hsound.job_of_runs hr)).request
  have hsent : ∀ {mark : List (Entry σ)}, turns S (.sent (.event r ((t.letGo r).objects r).identity
      (.completed rendered)) :: (mark ++ [.sent (.event r ((t.letGo r).objects r).identity
        .released)])) = turns S mark := by
    intro mark
    change turns S (mark ++ _) = _
    exact turns_quiet (by simp [Entry.turn?])
  rw [hsent] at hrest
  by_cases hown : (t.objects r).vad = true ∧ (t.objects r).session = S
  · obtain ⟨hvad, hS⟩ := hown
    obtain ⟨hturns, hvadJobs, -⟩ := letGo_line hsound hr S
    obtain ⟨hold, hnew⟩ := hvadJobs hvad
    have hmark : turns S ((t.letGo r).scoredMark r state) =
        [.scored r request.utteranceId state] := by
      unfold Table.scoredMark
      rw [hobjects, hvad, hrequest]
      simp [turns, Entry.turn?, hS]
    have hscored : (t.letGo r).scoredSessions r state S =
        some { (t.vadSessions S).getD {} with utteranceId := request.utteranceId, state := state } := by
      unfold Table.scoredSessions
      rw [hobjects, hvad, hrequest]
      dsimp only
      rw [hS, if_pos rfl, hheld]
    have hqueue₁ : (t.letGo r).marked S (t.letGo r).vadJobs = t.marked S t.vadLane := by
      rw [hnew]
      exact marked_congr fun q _ => by
        rw [hobjects]
        exact ⟨rfl, rfl⟩
    rw [hqueue, hmark, hscored, hqueue₁, hturns, hnext] at hrest
    refine Relation.ReflTransGen.head ?_ hrest
    have hhead : (t.line S).queue = (r, (t.objects r).fromReset) :: t.marked S t.vadLane := by
      change t.marked S t.vadJobs = _
      rw [hold, marked_cons hS]
    exact Line.Step.scored hhead
  · have hother : (t.objects r).vad = true → (t.objects r).session ≠ S :=
      fun hvad hS => hown ⟨hvad, hS⟩
    have hline := letGo_line_other hsound hr hother
    have hmark : turns S ((t.letGo r).scoredMark r state) = [] := by
      unfold Table.scoredMark
      rw [hobjects, hrequest]
      cases hvad : (t.objects r).vad with
      | true => simp [turns, Entry.turn?, hother hvad]
      | false => rfl
    have hscored : (t.letGo r).scoredSessions r state S = (t.letGo r).vadSessions S := by
      unfold Table.scoredSessions
      rw [hobjects, hrequest]
      cases hvad : (t.objects r).vad with
      | true => exact if_neg (Ne.symm (hother hvad))
      | false => rfl
    rw [hqueue, hmark, hscored, List.append_nil] at hrest
    rw [← hline]
    exact hrest

/-- **Every change is a sequence of steps of each line.** -/
theorem Change.line (hsound : Sound t []) (hcalm : Calm t) (hchange : Change t t')
    (S : Session) : Relation.ReflTransGen Line.Step (t.line S) (t'.line S) := by
  have hsound' := (hsound.change hcalm hchange).1
  cases hchange with
  | reacts hreaction => exact hreaction.line hsound hcalm S
  | closes =>
    have hturns : turns S t.close.log = turns S t.log := turns_quiet (by simp [Entry.turn?])
    have hline : t.close.line S = { t.line S with next := t.next + 1 } := by
      unfold Table.line
      rw [hturns]
      rfl
    rw [hline]
    exact Relation.ReflTransGen.single (Line.Step.passed (Nat.le_succ _))
  | numbered => exact Relation.ReflTransGen.single (Line.Step.passed (Nat.le_succ _))
  | queued f => exact Relation.ReflTransGen.refl
  | takenJob hlane hidle => exact Relation.ReflTransGen.refl
  | takenFrame hlane => exact Relation.ReflTransGen.refl
  | @closed f rest hlane hjobs hbackend =>
    refine Relation.ReflTransGen.single ?_
    have hqueue : (t.line S).queue = [] := by
      refine marked_eq_nil.2 fun q hq => ?_
      have hjob := hsound.job_of_vadJobs hq
      rw [hjobs] at hjob
      cases hjob
    have hstep := Line.Step.cleared hqueue
    unfold Table.line at hstep ⊢
    dsimp only at hstep ⊢
    rw [turns_append]
    exact hstep
  | @takenVad r rest hlane hidle =>
    have hline : ({ t with vadLane := rest, vadRunning := some r } : Table σ).line S = t.line S := by
      refine line_congr rfl ?_ rfl rfl
      change t.marked S (r :: rest) = t.marked S t.vadJobs
      unfold Table.vadJobs
      rw [hidle, hlane]
      rfl
    rw [hline]
  | opened runsVad classes =>
    obtain ⟨-, hvadLane, -, -, hvadRunning, -, hobjects, hheld, hnext⟩ :=
      open_frame t runsVad classes
    have hturns : turns S (t.open runsVad classes).log = turns S t.log := by
      unfold Table.open Table.mark
      dsimp only
      split_ifs
      · exact turns_quiet (by simp [Entry.turn?])
      · exact turns_quiet (by simp [Entry.turn?])
    have hqueue : (t.open runsVad classes).marked S (t.open runsVad classes).vadJobs =
        t.marked S t.vadJobs := by
      rw [vadJobs_congr hvadLane hvadRunning]
      exact marked_congr fun q _ => by
        rw [hobjects]
        exact ⟨rfl, rfl⟩
    have hline : (t.open runsVad classes).line S = { t.line S with next := t.next + 1 } := by
      unfold Table.line
      rw [hturns, hqueue, hheld, hnext]
    rw [hline]
    exact Relation.ReflTransGen.single (Line.Step.passed (Nat.le_succ _))
  | @started r backend given hr hbackend hgiven =>
    have hline : (t.mark (.started r backend given)).line S = t.line S := by
      exact line_congr (turns_quiet (by simp [Entry.turn?])) rfl rfl rfl
    rw [hline]
  | failedRun hr hended => exact failedRun_line hsound hr hended hsound' S
  | completedRun hr hcompleted => exact completedRun_line hsound hr hcompleted hsound' S

end Sidecar

end Tensorplate
