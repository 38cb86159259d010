import Tensorplate.Sidecar.Ledger
import Tensorplate.Sidecar.Threads

/-!
# The stream of every job

The table keeps a ledger: each change of the table is a sequence of
changes of it. So the messages of each submit that the table takes are one
stream with its identity, whole once the job has left the table, and every
session release that becomes pending is answered once.
-/

namespace Tensorplate

namespace Sidecar

open Lib

variable {σ : Type} {t t' : Table σ} {w w' : World σ} {r q : Ref} {loose : List Ref}

/-! ## The ledger of a table -/

/-- The message of an entry. -/
def Entry.message? : Entry σ → Option Message
  | .sent message => some (.sent message)
  | .pending session => some (.pending session)
  | _ => none

/-- The messages of a log. -/
def messages (log : List (Entry σ)) : List Message := log.filterMap Entry.message?

@[simp] theorem messages_append {a b : List (Entry σ)} :
    messages (a ++ b) = messages a ++ messages b :=
  List.filterMap_append

/-- **The ledger that the table keeps.** -/
def Table.ledger (t : Table σ) : Ledger where
  live q := if q ∈ t.jobs then some ((t.objects q).identity, (t.objects q).cancelled) else none
  releasing := t.releasing
  next := t.next
  messages := messages t.log

theorem ledger_live (hq : q ∈ t.jobs) :
    t.ledger.live q = some ((t.objects q).identity, (t.objects q).cancelled) := if_pos hq

theorem of_ledger_live {i : JobIdentity} {c : Bool} (h : t.ledger.live q = some (i, c)) :
    q ∈ t.jobs ∧ i = (t.objects q).identity ∧ c = (t.objects q).cancelled := by
  unfold Table.ledger at h
  dsimp only at h
  split_ifs at h with hq
  obtain ⟨rfl, rfl⟩ := Prod.mk.inj (Option.some.inj h)
  exact ⟨hq, rfl, rfl⟩

/-- What the ledger depends on. -/
theorem live_congr (hjobs : t'.jobs = t.jobs)
    (hsame : ∀ q ∈ t.jobs, (t'.objects q).identity = (t.objects q).identity ∧
      (t'.objects q).cancelled = (t.objects q).cancelled) : t'.ledger.live = t.ledger.live := by
  funext q
  unfold Table.ledger
  dsimp only
  rw [hjobs]
  split_ifs with hq
  · rw [(hsame q hq).1, (hsame q hq).2]
  · rfl

theorem ledger_ext {l : Ledger} (hlive : t'.ledger.live = l.live)
    (hreleasing : t'.releasing = l.releasing) (hnext : t'.next = l.next)
    (hmessages : messages t'.log = l.messages) : t'.ledger = l := by
  unfold Table.ledger at hlive ⊢
  dsimp only at hlive
  rw [hlive, hreleasing, hnext, hmessages]

theorem new_of_fresh {j : ℕ} (h : ∀ q ∈ t.jobs, (t.objects q).identity.jobId ≠ j) :
    t.ledger.New j := by
  intro q i c hq
  obtain ⟨hmem, rfl, -⟩ := of_ledger_live hq
  exact h q hmem

/-- A job of the session is live beside one that leaves. -/
theorem holds_iff (hnodup : t.jobs.Nodup) (hids : ∀ q ∈ t.jobs,
      (t.objects q).identity.jobId = (t.objects r).identity.jobId → q = r) (s : Session) :
    Ledger.Holds (Function.update t.ledger.live r none) s ↔
      ∃ q ∈ t.without r, (t.objects q).session = s := by
  rw [without_eq_erase hnodup hids]
  constructor
  · rintro ⟨q, i, c, hq, hs⟩
    have hqr : q ≠ r := by
      rintro rfl
      rw [Function.update_self] at hq
      cases hq
    rw [Function.update_of_ne hqr] at hq
    obtain ⟨hmem, rfl, -⟩ := of_ledger_live hq
    exact ⟨q, hnodup.mem_erase_iff.2 ⟨hqr, hmem⟩, hs⟩
  · rintro ⟨q, hq, hs⟩
    obtain ⟨hqr, hmem⟩ := hnodup.mem_erase_iff.1 hq
    refine ⟨q, (t.objects q).identity, (t.objects q).cancelled, ?_, hs⟩
    rw [Function.update_of_ne hqr]
    exact ledger_live hmem

theorem settlesWithout_iff (hnodup : t.jobs.Nodup) (hids : ∀ q ∈ t.jobs,
      (t.objects q).identity.jobId = (t.objects r).identity.jobId → q = r) :
    SettlesWithout t r ↔ t.releasing (t.objects r).session = true ∧
      ¬ Ledger.Holds (Function.update t.ledger.live r none) (t.objects r).session := by
  rw [holds_iff hnodup hids]
  unfold SettlesWithout
  push Not
  exact Iff.rfl

theorem removed_live (hnodup : t.jobs.Nodup) (h : Removed t t' r) :
    t'.ledger.live = Function.update t.ledger.live r none := by
  funext q
  by_cases hqr : q = r
  · rw [hqr, Function.update_self]
    unfold Table.ledger
    dsimp only
    rw [if_neg]
    rw [h.jobs, hnodup.mem_erase_iff]
    exact fun hmem => hmem.1 rfl
  · rw [Function.update_of_ne hqr]
    unfold Table.ledger
    dsimp only
    obtain ⟨hi, -, -, -, hc, -⟩ := core_eq (h.others q hqr)
    have hmem : q ∈ t'.jobs ↔ q ∈ t.jobs := by
      rw [h.jobs, hnodup.mem_erase_iff]
      exact and_iff_right hqr
    simp only [hmem, hi, hc]

/-- **The last messages of a job end it in the ledger.** -/
theorem ledger_dropped (hsound : Sound t loose) (hr : r ∈ t.jobs) (hremoved : Removed t t' r)
    {held : Session → Option (VadSession σ)} {sent : List (Entry σ)}
    (hdropped : Dropped t t' r held sent) (last : JobEvent) (hlast : Last last)
    (hsent : messages sent = said r (t.objects r).identity [last, .released]) :
    Ledger.Step t.ledger t'.ledger := by
  have hids : ∀ q ∈ t.jobs, (t.objects q).identity.jobId = (t.objects r).identity.jobId → q = r :=
    fun q hq hid => hsound.ids q hq r hr hid
  have hsettles := settlesWithout_iff hsound.nodup hids
  have hlive := removed_live hsound.nodup hremoved
  by_cases hs : SettlesWithout t r
  · obtain ⟨hreleasing, -, hlog⟩ := hdropped.settled hs
    obtain ⟨hpending, hnone⟩ := hsettles.1 hs
    have hstep := Ledger.Step.settle (l := t.ledger) r (t.objects r).identity
      (t.objects r).cancelled last hlast (ledger_live hr) hpending hnone
    refine cast (congrArg (Ledger.Step t.ledger) ?_) hstep
    refine (ledger_ext hlive ?_ hremoved.next ?_).symm
    · rw [hreleasing]
      funext s
      exact (Function.update_apply _ _ _ _).symm
    · rw [hlog, messages_append, messages_append, hsent, ← List.append_assoc]
      rfl
  · obtain ⟨hreleasing, -, hlog⟩ := hdropped.unsettled hs
    have hstep := Ledger.Step.finish (l := t.ledger) r (t.objects r).identity
      (t.objects r).cancelled last hlast (ledger_live hr) fun hpending => by
        by_contra hnone
        exact hs (hsettles.2 ⟨hpending, hnone⟩)
    refine cast (congrArg (Ledger.Step t.ledger) ?_) hstep
    refine (ledger_ext hlive hreleasing hremoved.next ?_).symm
    rw [hlog, messages_append, hsent]
    rfl

/-- The messages of a job that fails. -/
theorem messages_failed (i : JobIdentity) (error : ErrorObject) :
    messages ([.sent (.event r i (.failed error)), .sent (.event r i .released)] : List (Entry σ)) =
      said r i [.failed error, .released] := rfl

theorem messages_completed (t : Table σ) (r : Ref) (i : JobIdentity) (rendered : Rendered)
    (state : Option σ) :
    messages (.sent (.event r i (.completed rendered)) ::
      (t.scoredMark r state ++ [.sent (.event r i .released)])) =
      said r i [.completed rendered, .released] := by
  have hmark : messages (t.scoredMark r state) = [] := by
    unfold Table.scoredMark
    split
    · rfl
    · rfl
  have hsplit : (.sent (.event r i (.completed rendered)) ::
      (t.scoredMark r state ++ [.sent (.event r i .released)]) : List (Entry σ)) =
      [.sent (.event r i (.completed rendered))] ++ (t.scoredMark r state ++
        [.sent (.event r i .released)]) := rfl
  rw [hsplit, messages_append, messages_append, hmark]
  rfl

theorem ledger_acknowledged (hr : r ∈ t.jobs) (hc : (t.objects r).cancelled = false)
    (h : Acknowledged t t' r) : Ledger.Step t.ledger t'.ledger := by
  have hlive := ledger_live hr
  rw [hc] at hlive
  have hstep := Ledger.Step.acknowledge (l := t.ledger) r (t.objects r).identity hlive
  refine cast (congrArg (Ledger.Step t.ledger) ?_) hstep
  refine (ledger_ext ?_ h.releasing h.next ?_).symm
  · funext q
    dsimp only
    by_cases hqr : q = r
    · rw [hqr, Function.update_self, ledger_live (by rw [h.jobs]; exact hr), h.object]
      rfl
    · rw [Function.update_of_ne hqr]
      unfold Table.ledger
      dsimp only
      rw [h.jobs, h.others q hqr]
  · rw [h.log, messages_append]
    rfl

theorem ledger_refused {header : Header} {job : Job} {error : ErrorObject} (h : Sound t [])
    (hmade : Made t header job)
    (hended : Ended (t.made header job) ((t.made header job).leaveLane t.next) t' t.next error) :
    Ledger.Step t.ledger t'.ledger := by
  have hmadeSound := h.made header job
  have hremoved := hended.removed hmadeSound (hmade.ids h)
  have hobject := made_object t header job
  have hstep := Ledger.Step.refuse (l := t.ledger) job.identity error (new_of_fresh hmade.fresh)
  refine cast (congrArg (Ledger.Step t.ledger) ?_) hstep
  have hsettles : ¬ SettlesWithout (t.made header job) t.next := by
    rw [settlesWithout_iff hmadeSound.nodup (hmade.ids h)]
    rintro ⟨hpending, hnone⟩
    obtain ⟨q, hq, hqs⟩ := hmadeSound.pending _ hpending
    refine hnone ⟨q, ((t.made header job).objects q).identity,
      ((t.made header job).objects q).cancelled, ?_, hqs⟩
    rw [Function.update_of_ne (h.ne_next hq)]
    exact ledger_live hq
  obtain ⟨hreleasing, -, hlog⟩ := hended.unsettled hsettles
  refine (ledger_ext ?_ hreleasing hremoved.next ?_).symm
  · rw [removed_live hmadeSound.nodup hremoved]
    have hsame : (t.made header job).ledger.live = t.ledger.live :=
      live_congr rfl fun q hq => by
        rw [made_other t header job (h.ne_next hq)]
        exact ⟨rfl, rfl⟩
    rw [hsame]
    apply Function.update_eq_self_iff.2
    symm
    exact if_neg fun hmem => h.ne_next hmem rfl
  · rw [hlog, hobject, messages_append, messages_failed]
    change messages (t.log ++ [.arrived t.next header]) ++ _ = _
    rw [messages_append]
    change messages t.log ++ [] ++ _ = _
    rw [List.append_nil]
    rfl

theorem ledger_accepted {header : Header} {job : Job} (hadmitted : Admitted t header job)
    (haccepted : Accepted (t.made header job) t' t.next) : Ledger.Step t.ledger t'.ledger := by
  have hobject := made_object t header job
  have hstep := Ledger.Step.accept (l := t.ledger) job.identity
    (new_of_fresh hadmitted.toMade.fresh)
  refine cast (congrArg (Ledger.Step t.ledger) ?_) hstep
  refine (ledger_ext ?_ haccepted.releasing haccepted.next ?_).symm
  · funext q
    by_cases hq : q = t.next
    · rw [hq]
      change _ = Function.update t.ledger.live t.next (some (job.identity, false)) t.next
      rw [Function.update_self, ledger_live (by rw [haccepted.jobs]; simp), haccepted.object]
      unfold Table.admitted
      rw [hobject]
      dsimp only
      rw [hadmitted.cancelled]
    · change _ = Function.update t.ledger.live t.next (some (job.identity, false)) q
      rw [Function.update_of_ne hq]
      unfold Table.ledger
      dsimp only
      rw [haccepted.jobs, haccepted.others q hq, made_other t header job hq]
      change (if q ∈ t.jobs ++ [t.next] then _ else _) = _
      have hmem : q ∈ t.jobs ++ [t.next] ↔ q ∈ t.jobs := by
        rw [List.mem_append, List.mem_singleton]
        exact or_iff_left hq
      simp only [hmem]
  · rw [haccepted.log, hobject, messages_append]
    change messages (t.log ++ [.arrived t.next header]) ++ _ = _
    rw [messages_append]
    change messages t.log ++ [] ++ _ = _
    rw [List.append_nil]
    rfl

/-- Answers leave the jobs alone. -/
theorem ledger_answers (answers : List (Entry σ)) (hanswers : ∀ e ∈ answers, e.IsAnswer)
    (l : Ledger) : Relation.ReflTransGen Ledger.Step l
      { l with messages := l.messages ++ messages answers } := by
  induction answers generalizing l with
  | nil =>
    have hnil : l.messages ++ messages ([] : List (Entry σ)) = l.messages := List.append_nil _
    rw [hnil]
  | cons e rest ih =>
    obtain ⟨messageId, error, rfl⟩ := hanswers e (by simp)
    have hstep := Ledger.Step.answer (l := l) messageId error
    refine Relation.ReflTransGen.head hstep ?_
    have hrest := ih (fun e he => hanswers e (by simp [he]))
      { l with messages := l.messages ++ [.sent (.errorEvent messageId error)] }
    rw [List.append_assoc] at hrest
    exact hrest

/-- **Every reaction is one of the ledger.** -/
theorem Reaction.ledger (h : Sound t []) (hcalm : Calm t) (hreaction : Reaction t t') :
    Relation.ReflTransGen Ledger.Step t.ledger t'.ledger := by
  cases hreaction with
  | @note e he =>
    obtain ⟨messageId, error, rfl⟩ := he
    refine Relation.ReflTransGen.single ?_
    refine cast (congrArg (Ledger.Step t.ledger) ?_) (Ledger.Step.answer (l := t.ledger) messageId error)
    symm
    refine ledger_ext rfl rfl rfl ?_
    exact messages_append
  | @unread header answers hsubmit hanswers =>
    obtain ⟨held, heq⟩ := resetUnrun_frame (t.noted header answers) header
    rw [heq]
    refine Relation.ReflTransGen.head (Ledger.Step.skip (t.next + 1) (Nat.le_succ _)) ?_
    refine cast (congrArg (Relation.ReflTransGen Ledger.Step _) ?_)
      (ledger_answers answers hanswers { t.ledger with next := t.next + 1 })
    symm
    refine ledger_ext rfl rfl rfl ?_
    change messages (t.log ++ [.arrived t.next header] ++ answers) = _
    rw [messages_append, messages_append]
    change messages t.log ++ [] ++ messages answers = _
    rw [List.append_nil]
    rfl
  | refused hmade hended => exact Relation.ReflTransGen.single (ledger_refused h hmade hended)
  | accepted hadmitted haccepted =>
    exact Relation.ReflTransGen.single (ledger_accepted hadmitted haccepted)
  | @acknowledged _ r hr hc hack =>
    exact Relation.ReflTransGen.single (ledger_acknowledged (h.job_of_runs hr) hc hack)
  | @cancelled t₁ _ r error hr hack hended =>
    have hjob := h.job_of_waiting hr
    have hsound₁ := hack.sound h
    have hjob₁ : r ∈ t₁.jobs := by
      rw [hack.jobs]
      exact hjob
    have hremoved := hended.removed hsound₁ fun q hq hid => hsound₁.ids q hq r hjob₁ hid
    refine Relation.ReflTransGen.head (ledger_acknowledged hjob (hcalm r hr) hack) ?_
    exact Relation.ReflTransGen.single (ledger_dropped hsound₁ hjob₁ hremoved hended.toDropped
      (.failed error) trivial (messages_failed _ _))
  | @failed _ r error hr hended =>
    have hjob := h.job_of_waiting hr
    have hremoved := hended.removed h fun q hq hid => h.ids q hq r hjob hid
    exact Relation.ReflTransGen.single (ledger_dropped h hjob hremoved hended.toDropped
      (.failed error) trivial (messages_failed _ _))
  | @pended s hs hlive =>
    obtain ⟨q, hq, hqs⟩ := hlive
    refine Relation.ReflTransGen.single ?_
    have hstep := Ledger.Step.pend (l := t.ledger) s hs ⟨q, _, _, ledger_live hq, hqs⟩
    refine cast (congrArg (Ledger.Step t.ledger) ?_) hstep
    symm
    exact ledger_ext rfl rfl rfl messages_append
  | @released s hs hlive =>
    refine Relation.ReflTransGen.single ?_
    have hstep := Ledger.Step.release (l := t.ledger) s hs (by
      rintro ⟨q, i, c, hq, hqs⟩
      obtain ⟨hmem, rfl, -⟩ := of_ledger_live hq
      exact hlive q hmem hqs)
    refine cast (congrArg (Ledger.Step t.ledger) ?_) hstep
    symm
    refine ledger_ext rfl rfl rfl ?_
    rw [messages_append, List.append_assoc]
    rfl

theorem ledger_letGo (t : Table σ) (r : Ref) : (t.letGo r).ledger = t.ledger := by
  obtain ⟨-, -, hjobs, hobjects, hreleasing, hnext, -, hlog⟩ := letGo_frame t r
  refine ledger_ext (live_congr hjobs fun q _ => by rw [hobjects]; exact ⟨rfl, rfl⟩) hreleasing
    hnext ?_
  rw [hlog, messages_append]
  exact List.append_nil _

/-- **Every change of the table is one of the ledger.** -/
theorem Change.ledger (h : Sound t []) (hcalm : Calm t) (hchange : Change t t') :
    Relation.ReflTransGen Ledger.Step t.ledger t'.ledger := by
  cases hchange with
  | reacts hreaction => exact hreaction.ledger h hcalm
  | closes =>
    refine Relation.ReflTransGen.single ?_
    refine cast (congrArg (Ledger.Step t.ledger) ?_)
      (Ledger.Step.skip (l := t.ledger) (t.next + 1) (Nat.le_succ _))
    symm
    refine ledger_ext rfl rfl rfl ?_
    exact messages_append.trans (List.append_nil _)
  | numbered => exact Relation.ReflTransGen.single (Ledger.Step.skip (t.next + 1) (Nat.le_succ _))
  | queued f => exact Relation.ReflTransGen.refl
  | takenJob hlane hidle => exact Relation.ReflTransGen.refl
  | takenFrame hlane => exact Relation.ReflTransGen.refl
  | @closed f rest hlane hjobs hbackend =>
    refine cast (congrArg (Relation.ReflTransGen Ledger.Step t.ledger) ?_)
      Relation.ReflTransGen.refl
    symm
    refine ledger_ext rfl rfl rfl ?_
    exact messages_append.trans (List.append_nil _)
  | takenVad hlane hidle => exact Relation.ReflTransGen.refl
  | opened runsVad classes =>
    obtain ⟨-, -, hjobs, -, -, hreleasing, hobjects, -, hnext⟩ := open_frame t runsVad classes
    refine Relation.ReflTransGen.single ?_
    refine cast (congrArg (Ledger.Step t.ledger) ?_)
      (Ledger.Step.skip (l := t.ledger) (t.next + 1) (Nat.le_succ _))
    symm
    refine ledger_ext (live_congr hjobs fun q _ => by rw [hobjects]; exact ⟨rfl, rfl⟩) hreleasing
      hnext ?_
    unfold Table.open Table.mark
    dsimp only
    split_ifs
    · exact messages_append.trans (List.append_nil _)
    · exact messages_append.trans (List.append_nil _)
  | @started r backend given hr hbackend hgiven =>
    refine cast (congrArg (Relation.ReflTransGen Ledger.Step t.ledger) ?_)
      Relation.ReflTransGen.refl
    symm
    refine ledger_ext rfl rfl rfl ?_
    exact messages_append.trans (List.append_nil _)
  | @failedRun _ r error hr hended =>
    obtain ⟨hsound₁, -, -⟩ := h.letGo hr
    obtain ⟨-, -, hjobs, -⟩ := letGo_frame t r
    have hended' : RunEnded t t' r := Or.inl ⟨error, hended⟩
    rw [← ledger_letGo t r]
    exact Relation.ReflTransGen.single (ledger_dropped hsound₁
      (by rw [hjobs]; exact h.job_of_runs hr) (hended'.removed h hr) hended.toDropped
      (.failed error) trivial (messages_failed _ _))
  | @completedRun _ r rendered state hr hcompleted =>
    obtain ⟨hsound₁, -, -⟩ := h.letGo hr
    obtain ⟨-, -, hjobs, -⟩ := letGo_frame t r
    have hended' : RunEnded t t' r := Or.inr ⟨rendered, state, hcompleted⟩
    rw [← ledger_letGo t r]
    exact Relation.ReflTransGen.single (ledger_dropped hsound₁
      (by rw [hjobs]; exact h.job_of_runs hr) (hended'.removed h hr) hcompleted.toDropped
      (.completed rendered) trivial (messages_completed _ _ _ _ _))

theorem Changes.ledger (h : Sound t []) (hcalm : Calm t) (hchanges : Changes t t') :
    Relation.ReflTransGen Ledger.Step t.ledger t'.ledger ∧ Sound t' [] ∧ Calm t' := by
  induction hchanges with
  | refl => exact ⟨Relation.ReflTransGen.refl, h, hcalm⟩
  | tail _ hchange ih =>
    obtain ⟨hsteps, hsound, hcalm'⟩ := ih
    exact ⟨hsteps.trans (hchange.ledger hsound hcalm'), hsound.change hcalm' hchange⟩

/-! ## Runs -/

theorem kept_first : (({} : Table σ).ledger).Kept := by
  have hnone : ∀ r, (({} : Table σ).ledger).live r = none := fun r => rfl
  refine ⟨⟨fun r i c hr => ?_, fun r _ => Or.inl rfl, fun r _ => ⟨hnone r, rfl⟩, ?_,
    fun j => grouped_nil, fun r i c hr => ?_⟩, ⟨fun s => ⟨0, rfl⟩, fun s hs => ?_, ?_⟩⟩
  · rw [hnone] at hr
    cases hr
  · intro r q i j c d hr
    rw [hnone] at hr
    cases hr
  · rw [hnone] at hr
    cases hr
  · cases hs
  · intro a s b heq
    have hnil : ([] : List Message) = a ++ .sent (.sessionReleased s) :: b := heq
    exact absurd hnil.symm (by simp)

/-- The ledger along a run. -/
theorem ledger_run {first : World σ} (hfirst : Placed first)
    (hrun : Run World.step Free first w) :
    Placed w ∧ Relation.ReflTransGen Ledger.Step first.table.ledger w.table.ledger := by
  refine hrun.invariant (I := fun w => Placed w ∧
    Relation.ReflTransGen Ledger.Step first.table.ledger w.table.ledger)
    ⟨hfirst, Relation.ReflTransGen.refl⟩ fun s a u h _ hstep => ?_
  obtain ⟨hplaced, hchanges⟩ := h.1.step hstep
  exact ⟨hplaced, h.2.trans (hchanges.ledger h.1.sound h.1.calm).1⟩

theorem kept_run (hrun : Run World.step Free ({} : World σ) w) : w.table.ledger.Kept :=
  kept_first.steps (ledger_run placed_first hrun).2

/-- The messages of a job, as they were written. -/
def Table.stream (t : Table σ) (r : Ref) : List (JobIdentity × JobEvent) := events (messages t.log) r

/-- The job is in a lane, or it runs. -/
def Table.Has (t : Table σ) (r : Ref) : Prop := r ∈ t.waiting ∨ t.Runs r

theorem Sound.has_iff (h : Sound t []) : t.Has r ↔ r ∈ t.jobs := by
  rw [← h.mem_placed, mem_placed_iff]
  unfold Table.Has Table.Runs
  simp

/-- **A stream with an identity**: a prefix of a whole one while the table
has the job, and whole from then on. -/
structure StreamOf (t : Table σ) (r : Ref) (identity : JobIdentity) : Prop where
  running : t.Has r → ∃ cancelled, t.stream r = running identity cancelled
  whole : ¬ t.Has r → Whole identity (t.stream r)
  alone : ∀ a b c, speakers (messages t.log) identity.jobId = a ++ r :: (b ++ r :: c) →
    ∀ q ∈ b, q = r

theorem whole_head {i j : JobIdentity} {e : JobEvent} {rest : List (JobIdentity × JobEvent)}
    (h : Whole i ((j, e) :: rest)) : i = j := by
  generalize hl : (j, e) :: rest = l at h
  cases h with
  | refused error =>
    rw [List.cons.injEq, Prod.mk.injEq] at hl
    exact hl.1.1.symm
  | ended cancelled last hlast =>
    unfold running at hl
    rw [List.cons_append, List.cons.injEq, Prod.mk.injEq] at hl
    exact hl.1.1.symm

/-- A stream that began goes on with its identity. -/
theorem streamOf_of_head (hsound : Sound t []) (hkept : t.ledger.Kept) {identity : JobIdentity}
    {e : JobEvent} {rest : List (JobIdentity × JobEvent)}
    (hhead : t.stream r = (identity, e) :: rest) : StreamOf t r identity := by
  refine ⟨fun hhas => ?_, fun hhas => ?_, fun a b c heq => hkept.1.grouped _ a b c r heq⟩
  · have hrunning := hkept.1.live r _ _ (ledger_live (hsound.has_iff.1 hhas))
    have hstream : t.stream r = running (t.objects r).identity (t.objects r).cancelled := hrunning
    rw [hhead] at hstream
    unfold running at hstream
    rw [List.cons.injEq, Prod.mk.injEq] at hstream
    refine ⟨(t.objects r).cancelled, ?_⟩
    rw [hhead]
    unfold running
    rw [hstream.2, hstream.1.1, hstream.1.2]
  · have hnone : t.ledger.live r = none := if_neg fun hmem => hhas (hsound.has_iff.2 hmem)
    rcases hkept.1.gone r hnone with hnil | ⟨i, hwhole⟩
    · have hstream : t.stream r = [] := hnil
      rw [hhead] at hstream
      cases hstream
    · have hwhole' : Whole i (t.stream r) := hwhole
      have hi : i = identity := by
        rw [hhead] at hwhole'
        exact whole_head hwhole'
      rw [← hi]
      exact hwhole'

/-! ## Submits -/

section Submits

variable {header : Header} {payload : List UInt8} {permit : Permit} {identity : JobIdentity}

/-- What is read of a submit that is not malformed and whose identity
reads. -/
theorem readJob_of_reads (hmalformed : readSubmit header payload ≠ .error .malformed)
    (hidentity : readIdentity header = .ok identity) :
    ∃ request, Table.readJob header payload = .ok (identity, request) := by
  unfold Table.readJob
  split
  · rename_i h
    exact absurd h hmalformed
  · exact ⟨_, bind_of_ok hidentity⟩
  · exact ⟨_, bind_of_ok hidentity⟩

/-- A submit is taken where a backend is enabled. -/
theorem handle_submit {request : Except String JobRequest}
    (hsubmit : isText (get header "kind") "job_submit" = true)
    (hread : Table.readJob header payload = .ok (identity, request))
    (htook : t.handle header payload permit = .ok (t', true)) :
    ∃ backend, t.backend = some backend ∧
      (t.arrive header).submit t.next header backend permit identity request = .ok t' := by
  unfold Table.handle at htook
  rw [if_pos hsubmit] at htook
  rcases hbackend : t.backend with _ | backend
  · rw [hbackend] at htook
    cases htook
  · rw [hbackend] at htook
    dsimp only at htook
    rw [hread] at htook
    dsimp only at htook
    obtain ⟨t'', hsubmit', heq⟩ := bind_eq_ok.1 htook
    obtain ⟨rfl, -⟩ := Prod.mk.inj (Except.ok.inj heq)
    exact ⟨backend, rfl, hsubmit'⟩

/-- The first message of a job that a submit starts. -/
theorem Starts.head (h : Starts t header identity t')
    (hkept : t.ledger.Kept) : ∃ e rest, t'.stream t.next = (identity, e) :: rest := by
  have hnone : events (messages t.log) t.next = [] := (hkept.1.old t.next le_rfl).2
  have harrived : ∀ job, events (messages (t.made header job).log) t.next = [] := by
    intro job
    change events (messages (t.log ++ [.arrived t.next header])) t.next = []
    rw [messages_append, events_append, hnone]
    rfl
  unfold Table.stream
  obtain ⟨job, rfl, ⟨error, hmade, hended⟩ | ⟨hadmitted, haccepted⟩⟩ := h
  · have hobject := made_object t header job
    by_cases hsettles : SettlesWithout (t.made header job) t.next
    · rw [(hended.settled hsettles).2.2, hobject, messages_append, events_append, harrived,
        messages_append, messages_failed, events_append, events_said, if_pos rfl]
      exact ⟨_, _, rfl⟩
    · rw [(hended.unsettled hsettles).2.2, hobject, messages_append, events_append, harrived,
        messages_failed, events_said, if_pos rfl]
      exact ⟨_, _, rfl⟩
  · rw [haccepted.log, made_object, messages_append, events_append, harrived]
    refine ⟨.accepted, [], ?_⟩
    change events (said t.next job.identity [.accepted]) t.next = _
    rw [events_said, if_pos rfl]
    rfl

end Submits

/-- **The messages of the sidecar, in every run**: no call refuses an event
of its own; each submit that is taken, reads and is of no live identifier
has one stream with its identity; one of a live identifier has an answer
and nothing else; and each session release that becomes pending is
answered once, behind the streams of its jobs. -/
theorem jobs_have_their_streams (hrun : Run World.step Free ({} : World σ) w) :
    ((∀ header payload permit, ∃ left, w.table.handle header payload permit = .ok left) ∧
      (∀ header payload closing, ∃ left, w.table.offer header payload closing = .ok left) ∧
      ∀ vad r stage outcome, w.runOf vad = some (r, stage) →
        ∃ left, w.table.finish r stage outcome = .ok left) ∧
    (∀ header payload permit t' identity,
      isText (get header "kind") "job_submit" = true →
      w.table.handle header payload permit = .ok (t', true) →
      readSubmit header payload ≠ .error .malformed → readIdentity header = .ok identity →
      (w.table.find identity.jobId = none →
        ∀ w', Run World.step Free { w with table := t' } w' →
          StreamOf w'.table w.table.next identity) ∧
      (w.table.find identity.jobId ≠ none →
        (∃ messageId error, t'.log = w.table.log ++
          [.arrived w.table.next header, .sent (.errorEvent messageId error)]) ∧
        t'.jobs = w.table.jobs ∧
        ∀ w', Run World.step Free { w with table := t' } w' →
          w'.table.stream w.table.next = [])) ∧
    (∀ s, (∃ n, releases (messages w.table.log) s =
        (List.replicate n [true, false]).flatten ++ Ledger.unanswered (w.table.releasing s)) ∧
      (w.table.releasing s = true → ∃ q, w.table.Has q ∧ (w.table.objects q).session = s)) ∧
    Ledger.Settled (messages w.table.log) := by
  have hplaced := placed_run hrun
  have hkept := kept_run hrun
  refine ⟨⟨fun header payload permit => ?_, fun header payload closing => ?_,
    fun vad r stage outcome hstage => ?_⟩, ?_, fun s => ⟨hkept.2.answered s, fun hs => ?_⟩,
    hkept.2.settled⟩
  · obtain ⟨t', took, heq, -⟩ := handle_reacts hplaced.sound hplaced.calm header payload permit
    exact ⟨_, heq⟩
  · obtain ⟨left, heq, -⟩ := offer_spec hplaced.sound hplaced.calm header payload closing
    exact ⟨left, heq⟩
  · obtain ⟨t', heq, -⟩ := finish_spec hplaced.sound (hplaced.runs hstage) stage outcome
    exact ⟨t', heq⟩
  · intro header payload permit t' identity hsubmit htook hmalformed hidentity
    obtain ⟨request, hread⟩ := readJob_of_reads hmalformed hidentity
    obtain ⟨backend, hbackend, hsubmitted⟩ := handle_submit hsubmit hread htook
    obtain ⟨t'', took, heq, hreactions⟩ :=
      handle_reacts hplaced.sound hplaced.calm header payload permit
    rw [htook] at heq
    obtain ⟨rfl, -⟩ := Prod.mk.inj (Except.ok.inj heq)
    have hplaced' := hplaced.reacts hreactions
    have hkept' : t'.ledger.Kept := hkept.steps
      ((Changes.of_reactions hreactions).ledger hplaced.sound hplaced.calm).1
    refine ⟨fun hnew w' hlater => ?_, fun hlive => ?_⟩
    · obtain ⟨t'', heq', hstarts⟩ := submit_new hsubmit hread hbackend
        (by rw [hnew]; rfl) permit
      rw [hsubmitted] at heq'
      obtain rfl := Except.ok.inj heq'
      obtain ⟨e, rest, hhead⟩ := hstarts.head hkept
      obtain ⟨hplaced'', hsteps⟩ := ledger_run hplaced' hlater
      obtain ⟨ms, hms⟩ := Ledger.messages_extend hsteps
      have hmore : w'.table.stream w.table.next = t'.stream w.table.next ++
          events ms w.table.next := by
        unfold Table.stream
        change events w'.table.ledger.messages w.table.next = _
        rw [hms, events_append]
        rfl
      rw [hhead, List.cons_append] at hmore
      exact streamOf_of_head hplaced''.sound (hkept'.steps hsteps) hmore
    · have hsome : (w.table.find identity.jobId).isSome = true := Option.isSome_iff_ne_none.2 hlive
      obtain ⟨answer, ⟨messageId, error, rfl⟩, heq'⟩ :=
        submit_duplicate hsubmit hread hsome backend permit
      rw [hsubmitted] at heq'
      obtain rfl := Except.ok.inj heq'
      obtain ⟨held, hreset⟩ := resetUnrun_frame
        (w.table.noted header [.sent (.errorEvent messageId error)]) header
      have hlog : ((w.table.noted header [.sent (.errorEvent messageId error)]).resetUnrun
          header).log = w.table.log ++
          [.arrived w.table.next header, .sent (.errorEvent messageId error)] := by
        rw [hreset]
        exact List.append_assoc _ _ _
      have hjobs : ((w.table.noted header [.sent (.errorEvent messageId error)]).resetUnrun
          header).jobs = w.table.jobs := by
        rw [hreset]
        rfl
      refine ⟨⟨messageId, error, hlog⟩, hjobs, fun w' hlater => ?_⟩
      obtain ⟨-, hsteps⟩ := ledger_run hplaced' hlater
      refine (Ledger.Never.steps ⟨?_, ?_, ?_⟩ hsteps).events
      · change w.table.next < Table.next _
        rw [hreset]
        exact Nat.lt_succ_self _
      · refine if_neg fun hmem => ?_
        rw [hjobs] at hmem
        exact hplaced.sound.ne_next hmem rfl
      · change events (messages (Table.log _)) _ = []
        rw [hlog, messages_append, events_append]
        have hold : events (messages w.table.log) w.table.next = [] :=
          (hkept.1.old w.table.next le_rfl).2
        rw [hold]
        rfl
  · obtain ⟨q, hq, hqs⟩ := hplaced.sound.pending s hs
    exact ⟨q, hplaced.sound.has_iff.2 hq, hqs⟩

/-! ## A VAD job that completes -/

/-- The table that has taken a VAD job. -/
def submittedTable : Table ℕ :=
  match loadedWorld.table.handle (vadHeader 7 1) [0, 0, 0, 0] .permitted with
  | .ok (t, _) => t
  | .error _ => {}

/-- The sidecar once the job has completed. -/
def scoredWorld : World ℕ :=
  (exec World.step { loadedWorld with table := submittedTable } (vadActs 3)).getD {}

theorem scored_run : Run World.step Free { loadedWorld with table := submittedTable } scoredWorld :=
  Run.of_exec (exec_of_isSome (by decide +kernel))

/-- A VAD job that completes has a whole stream. -/
theorem jobs_have_their_streams_vad : StreamOf scoredWorld.table 2 ⟨7, 5, 1⟩ := by
  obtain ⟨-, hsubmits, -⟩ := jobs_have_their_streams loaded_run
  have htook : loadedWorld.table.handle (vadHeader 7 1) [0, 0, 0, 0] .permitted =
      .ok (submittedTable, true) := by
    rfl
  exact (hsubmits (vadHeader 7 1) [0, 0, 0, 0] .permitted submittedTable ⟨7, 5, 1⟩
    (by decide +kernel) htook (by decide +kernel) (by decide +kernel)).1 (by decide +kernel)
    scoredWorld scored_run

end Sidecar

end Tensorplate
