import Tensorplate.Sidecar.Lines

/-!
# The state a VAD job is given

A job's submit and its request stay with it, and what a run read of its
session's state is still there when it calls the backend. So the state that
each call is given, in every run, is the one that the session's submit right
before its own left, or none.
-/

namespace Tensorplate

namespace Sidecar

open Lib

variable {σ : Type} {t t' : Table σ} {w w' : World σ} {r q : Ref} {S : Session}

/-! ## The submit of a job -/

/-- What a job keeps while it is live. -/
def SameJob (a b : Job) : Prop := a.identity = b.identity ∧ a.request = b.request ∧ a.vad = b.vad

theorem SameJob.refl (a : Job) : SameJob a a := ⟨rfl, rfl, rfl⟩

theorem SameJob.trans {a b c : Job} (h : SameJob a b) (h' : SameJob b c) : SameJob a c :=
  ⟨h.1.trans h'.1, h.2.1.trans h'.2.1, h.2.2.trans h'.2.2⟩

theorem SameJob.session {a b : Job} (h : SameJob a b) : a.session = b.session := by
  unfold Job.session
  rw [h.1]

theorem SameJob.of_core {a b : Job} (h : a.core = b.core) : SameJob a b := by
  obtain ⟨hi, -, hr, -, -, hv⟩ := core_eq h
  exact ⟨hi, hr, hv⟩

/-- The job is of a submit that was read. -/
def ReadFrom (log : List (Entry σ)) (q : Ref) (job : Job) : Prop :=
  ∃ header payload request, .arrived q header ∈ log ∧ readSubmit header payload = .ok request ∧
    job.request = some request ∧
    Table.vadSession? header = if job.vad then some job.session else none

theorem ReadFrom.mono {log more : List (Entry σ)} {job job' : Job} (h : ReadFrom log q job)
    (hjob : SameJob job' job) : ReadFrom (log ++ more) q job' := by
  obtain ⟨header, payload, request, hmem, hread, hrequest, hvad⟩ := h
  refine ⟨header, payload, request, List.mem_append_left _ hmem, hread, hjob.2.1.trans hrequest, ?_⟩
  rw [hjob.2.2, hjob.session]
  exact hvad

/-- The jobs behind a change: they are what they were, or just admitted. -/
def Inherits (t t' : Table σ) : Prop :=
  ∀ q ∈ t'.jobs, (q ∈ t.jobs ∧ SameJob (t'.objects q) (t.objects q)) ∨
    (q = t.next ∧ ReadFrom t'.log q (t'.objects q))

theorem Removed.inherits (h : Removed t t' r) (hnodup : t.jobs.Nodup) : Inherits t t' := by
  intro q hq
  rw [h.jobs, hnodup.mem_erase_iff] at hq
  exact Or.inl ⟨hq.2, .of_core (h.others q hq.1)⟩

theorem Acknowledged.same (h : Acknowledged t t' r) (q : Ref) :
    SameJob (t'.objects q) (t.objects q) := by
  by_cases hq : q = r
  · rw [hq, h.object]
    exact ⟨rfl, rfl, rfl⟩
  · rw [h.others q hq]
    exact .refl _

theorem Reaction.inherits (hsound : Sound t []) (hreaction : Reaction t t') : Inherits t t' := by
  intro q hq
  cases hreaction with
  | note he => exact Or.inl ⟨hq, .refl _⟩
  | @unread header answers hsubmit hanswers =>
    obtain ⟨held, heq⟩ := resetUnrun_frame (t.noted header answers) header
    rw [heq] at hq ⊢
    exact Or.inl ⟨hq, .refl _⟩
  | @refused _ header job error hmade hended =>
    have hmadeSound := hsound.made header job
    have hremoved := hended.removed hmadeSound (hmade.ids hsound)
    rcases hremoved.inherits hmadeSound.nodup q hq with ⟨hold, hsame⟩ | ⟨hnew, -⟩
    · rw [made_other t header job (hsound.ne_next hold)] at hsame
      exact Or.inl ⟨hold, hsame⟩
    · rw [hremoved.jobs] at hq
      have hlt := hmadeSound.old q (List.mem_of_mem_erase hq)
      rw [hnew] at hlt
      exact absurd hlt (lt_irrefl _)
  | @accepted _ header job hadmitted haccepted =>
    by_cases hne : q = t.next
    · right
      refine ⟨hne, ?_⟩
      obtain ⟨payload, request, hread, hrequest, -⟩ := hadmitted.request
      have hobject : t'.objects q = (t.made header job).admitted t.next := by
        rw [hne, haccepted.object]
      have hsame : SameJob (t'.objects q) job := by
        rw [hobject]
        unfold Table.admitted
        rw [made_object]
        exact ⟨rfl, rfl, rfl⟩
      refine ⟨header, payload, request, ?_, hread, hsame.2.1.trans hrequest, ?_⟩
      · rw [haccepted.log, hne]
        apply List.mem_append_left
        change _ ∈ t.log ++ [.arrived t.next header]
        simp
      · rw [hsame.2.2, hsame.session]
        exact hadmitted.vad
    · rw [haccepted.jobs, List.mem_append, List.mem_singleton] at hq
      left
      refine ⟨hq.resolve_right hne, ?_⟩
      rw [haccepted.others q hne, made_other t header job hne]
      exact .refl _
  | acknowledged hr hc hack =>
    rw [hack.jobs] at hq
    exact Or.inl ⟨hq, hack.same q⟩
  | @cancelled t₁ _ r error hr hack hended =>
    have hsound₁ := hack.sound hsound
    have hjob : r ∈ t₁.jobs := by
      rw [hack.jobs]
      exact hsound.job_of_waiting hr
    have hremoved := hended.removed hsound₁ fun q hq hid => hsound₁.ids q hq r hjob hid
    rw [hremoved.jobs, hsound₁.nodup.mem_erase_iff, hack.jobs] at hq
    exact Or.inl ⟨hq.2, (SameJob.of_core (hremoved.others q hq.1)).trans (hack.same q)⟩
  | @failed _ r error hr hended =>
    exact (hended.removed hsound fun q hq hid =>
      hsound.ids q hq r (hsound.job_of_waiting hr) hid).inherits hsound.nodup q hq
  | pended hs hlive => exact Or.inl ⟨hq, .refl _⟩
  | released hs hlive => exact Or.inl ⟨hq, .refl _⟩

theorem RunEnded.inherits (h : RunEnded t t' r) (hsound : Sound t []) (hr : t.Runs r) :
    Inherits t t' := by
  intro q hq
  obtain ⟨-, -, hjobs, hobjects, -⟩ := letGo_frame t r
  have hremoved := h.removed hsound hr
  rw [hremoved.jobs, hjobs, hsound.nodup.mem_erase_iff] at hq
  have hcore := hremoved.others q hq.1
  rw [hobjects] at hcore
  exact Or.inl ⟨hq.2, .of_core hcore⟩

theorem Change.inherits (hsound : Sound t []) (hchange : Change t t') : Inherits t t' := by
  cases hchange with
  | reacts hreaction => exact hreaction.inherits hsound
  | closes => exact fun q hq => Or.inl ⟨hq, .refl _⟩
  | numbered => exact fun q hq => Or.inl ⟨hq, .refl _⟩
  | queued f => exact fun q hq => Or.inl ⟨hq, .refl _⟩
  | takenJob hlane hidle => exact fun q hq => Or.inl ⟨hq, .refl _⟩
  | takenFrame hlane => exact fun q hq => Or.inl ⟨hq, .refl _⟩
  | closed hlane hjobs hbackend => exact fun q hq => Or.inl ⟨hq, .refl _⟩
  | takenVad hlane hidle => exact fun q hq => Or.inl ⟨hq, .refl _⟩
  | opened runsVad classes =>
    obtain ⟨-, -, hjobs, -, -, -, hobjects, -, -⟩ := open_frame t runsVad classes
    intro q hq
    rw [hjobs] at hq
    rw [hobjects]
    exact Or.inl ⟨hq, .refl _⟩
  | started hr hbackend hgiven => exact fun q hq => Or.inl ⟨hq, .refl _⟩
  | @failedRun _ r error hr hended =>
    exact RunEnded.inherits (Or.inl ⟨error, hended⟩) hsound hr
  | @completedRun _ r rendered state hr hcompleted =>
    exact RunEnded.inherits (Or.inr ⟨rendered, state, hcompleted⟩) hsound hr

/-- **What the changes of a run keep**: each line steps on, and a job that is
live before and after them is the same. -/
structure Followed (t t' : Table σ) : Prop where
  sound : Sound t' []
  calm : Calm t'
  next : t.next ≤ t'.next
  log : ∃ more, t'.log = t.log ++ more
  line : ∀ S, Relation.ReflTransGen Line.Step (t.line S) (t'.line S)
  same : ∀ q ∈ t.jobs, q ∈ t'.jobs → SameJob (t'.objects q) (t.objects q)
  read : (∀ q ∈ t.jobs, ReadFrom t.log q (t.objects q)) →
    ∀ q ∈ t'.jobs, ReadFrom t'.log q (t'.objects q)

theorem Changes.followed (hsound : Sound t []) (hcalm : Calm t) (hchanges : Changes t t') :
    Followed t t' := by
  induction hchanges with
  | refl =>
    exact ⟨hsound, hcalm, le_rfl, ⟨[], (List.append_nil _).symm⟩,
      fun _ => Relation.ReflTransGen.refl, fun _ _ _ => .refl _, id⟩
  | @tail t₁ t₂ _ hchange ih =>
    obtain ⟨hsound₂, hcalm₂⟩ := ih.sound.change ih.calm hchange
    have hgrows := hchange.grows ih.sound
    have hinherits := hchange.inherits ih.sound
    obtain ⟨more, hmore⟩ := ih.log
    obtain ⟨more₂, hmore₂, -⟩ := hgrows.log
    refine ⟨hsound₂, hcalm₂, ih.next.trans hgrows.next, ⟨more ++ more₂, ?_⟩,
      fun S => (ih.line S).trans (hchange.line ih.sound ih.calm S), fun q hq hq₂ => ?_,
      fun hread q hq₂ => ?_⟩
    · rw [hmore₂, hmore, List.append_assoc]
    · rcases hinherits q hq₂ with ⟨hq₁, hsame⟩ | ⟨hnew, -⟩
      · exact hsame.trans (ih.same q hq hq₁)
      · have hlt := (hsound.old q hq).trans_le ih.next
        rw [hnew] at hlt
        exact absurd hlt (lt_irrefl _)
    · rcases hinherits q hq₂ with ⟨hq₁, hsame⟩ | ⟨-, hnew⟩
      · rw [hmore₂]
        exact (ih.read hread q hq₁).mono hsame
      · exact hnew

/-! ## What a run reads and passes on -/

/-- What a VAD job that runs is given, as the line of its session says. -/
theorem heldState_eq (hsound : Sound t []) (hr : t.vadRunning = some r) {request : JobRequest}
    (hrequest : (t.objects r).request = some request) :
    (t.line (t.objects r).session).queue =
      (r, (t.objects r).fromReset) :: t.marked (t.objects r).session t.vadLane ∧
    t.heldState r = given (t.objects r).fromReset (t.line (t.objects r).session).held
      request.utteranceId := by
  have hvad : (t.objects r).vad = true := hsound.vad_of_vadJobs (by
    unfold Table.vadJobs
    simp [hr])
  refine ⟨?_, ?_⟩
  · change t.marked _ t.vadJobs = _
    unfold Table.vadJobs
    rw [hr]
    exact marked_cons rfl _
  · unfold Table.heldState given Table.line
    dsimp only
    rw [hvad, hrequest]
    cases (t.objects r).fromReset with
    | true => rfl
    | false =>
      cases t.vadSessions (t.objects r).session with
      | none => rfl
      | some held => rfl

/-- **What a run read is still there** while it runs. -/
theorem Followed.heldState (h : Followed t t') (hsound : Sound t [])
    (hkept : ∀ S, (t.line S).Kept) (hr : t.vadRunning = some r) (hr' : t'.vadRunning = some r) :
    t'.heldState r = t.heldState r := by
  have hjob := hsound.job_of_vadRunning hr
  have hjob' := h.sound.job_of_vadRunning hr'
  have hsame := h.same r hjob hjob'
  obtain ⟨request, hrequest, -⟩ := (hsound.live r hjob).request
  obtain ⟨hqueue, heq⟩ := heldState_eq hsound hr hrequest
  obtain ⟨hqueue', heq'⟩ := heldState_eq h.sound hr' (hsame.2.1.trans hrequest)
  rw [hsame.session] at hqueue' heq'
  rw [heq, heq']
  rcases (hkept _).given_steps (h.line _) hqueue with ⟨f, rest, hfirst, hgiven⟩ | ⟨hgone, -⟩
  · rw [hfirst] at hqueue'
    obtain ⟨hhead, -⟩ := List.cons.inj hqueue'
    rw [← (Prod.mk.inj hhead).2]
    exact hgiven _
  · rw [hqueue'] at hgone
    exact absurd (by simp) hgone

/-- The entries that a step adds: at most one job is started, by the call of
its run. -/
theorem step_log {a : Act σ} (hplaced : Placed w) (hstep : w.step a = some w') :
    (∃ more, w'.table.log = w.table.log ++ more ∧ ∀ r b given, .started r b given ∉ more) ∨
    ∃ vad r state b given, w.runOf vad = some (r, .ready state) ∧
      given = (if (w.table.objects r).vad then some state else none) ∧
      w'.table.log = w.table.log ++ [.started r b given] := by
  have hnone : ∀ (more : List (Entry σ)), (∀ e ∈ more, e.IsReaction) →
      ∀ r b given, .started r b given ∉ more := fun more hmore r b given hmem =>
    (hmore _ hmem).harmless.2.2.2.1 r b given rfl
  have hsame : w'.table.log = w.table.log →
      ∃ more, w'.table.log = w.table.log ++ more ∧ ∀ r b given, .started r b given ∉ more :=
    fun heq => ⟨[], by rw [heq, List.append_nil], fun _ _ _ => List.not_mem_nil⟩
  cases a with
  | handle header payload permit =>
    left
    simp only [World.step] at hstep
    split at hstep
    · obtain ⟨t', took, heq, hreactions⟩ :=
        handle_reacts hplaced.sound hplaced.calm header payload permit
      rw [heq] at hstep
      obtain rfl := Option.some.inj hstep
      obtain ⟨more, hlog, hmore⟩ := hreactions.log
      exact ⟨more, hlog, hnone more hmore⟩
    · cases hstep
  | unrun header =>
    left
    obtain rfl := Option.some.inj hstep
    obtain ⟨more, hlog, hmore⟩ := (unrun_reacts w.table header).log
    exact ⟨more, hlog, hnone more hmore⟩
  | offer header payload =>
    left
    simp only [World.step] at hstep
    obtain ⟨left, heq, hoffered⟩ := offer_spec hplaced.sound hplaced.calm header payload
      (closes header)
    rw [heq] at hstep
    obtain rfl := Option.some.inj hstep
    cases hoffered with
    | full hfull => exact hsame rfl
    | queued hclosing => exact hsame rfl
    | @closes t₁ hclosing hfailed =>
      obtain ⟨more, hlog, hmore⟩ := hfailed.reactions.log
      refine ⟨.closes w.table.next :: more, hlog.trans (List.append_assoc _ _ _), ?_⟩
      intro r b given hmem
      rcases List.mem_cons.1 hmem with heq | hmem
      · cases heq
      · exact hnone more hmore r b given hmem
  | take =>
    left
    simp only [World.step] at hstep
    have htaken : ∀ {t' : Table σ} {work : Work}, w.table.take = some (t', work) →
        ∃ more, t'.log = w.table.log ++ more ∧ ∀ r b given, .started r b given ∉ more := by
      intro t' work htake
      rcases take_cases htake with ⟨r, rest, -, -, rfl⟩ | ⟨f, rest, -, -, -, rfl⟩ |
        ⟨f, rest, -, -, -, -, rfl⟩
      · exact ⟨[], (List.append_nil _).symm, fun _ _ _ => List.not_mem_nil⟩
      · exact ⟨[], (List.append_nil _).symm, fun _ _ _ => List.not_mem_nil⟩
      · exact ⟨[.closed f.id], rfl, by simp⟩
    split at hstep
    · rename_i t' r hserving htake
      obtain rfl := Option.some.inj hstep
      exact htaken htake
    · rename_i t' f hserving htake
      obtain rfl := Option.some.inj hstep
      exact htaken htake
    · cases hstep
  | «open» runsVad classes =>
    left
    simp only [World.step] at hstep
    split at hstep
    · split at hstep
      · obtain rfl := Option.some.inj hstep
        unfold Table.open Table.mark
        dsimp only
        split_ifs
        · exact ⟨_, rfl, by simp⟩
        · exact ⟨_, rfl, by simp⟩
      · cases hstep
    · cases hstep
  | dispatched =>
    left
    simp only [World.step] at hstep
    split at hstep
    · obtain rfl := Option.some.inj hstep
      exact hsame rfl
    · cases hstep
  | takeVad =>
    left
    simp only [World.step] at hstep
    split at hstep
    · rename_i t' r hidle htake
      obtain rfl := Option.some.inj hstep
      unfold Table.takeVad at htake
      split at htake
      · cases htake
      · obtain ⟨rfl, rfl⟩ := Prod.mk.inj (Option.some.inj htake)
        exact hsame rfl
    · cases hstep
  | readState vad =>
    left
    simp only [World.step] at hstep
    split at hstep
    · obtain rfl := Option.some.inj hstep
      exact hsame (by rw [setRun_table])
    · cases hstep
  | call vad =>
    simp only [World.step] at hstep
    split at hstep
    · rename_i r state hrun
      obtain rfl := Option.some.inj hstep
      rw [setRun_table]
      dsimp only
      rcases call_cases w.table r state with heq | ⟨b, given, -, hgiven, heq⟩
      · left
        exact ⟨[], by rw [heq, List.append_nil], fun _ _ _ => List.not_mem_nil⟩
      · right
        exact ⟨vad, r, state, b, given, hrun, hgiven, by rw [heq]; rfl⟩
    · cases hstep
  | finish vad outcome =>
    left
    simp only [World.step] at hstep
    split at hstep
    · rename_i r stage hrun
      have hr := hplaced.runs hrun
      obtain ⟨t', heq, hended⟩ := finish_spec hplaced.sound hr stage outcome
      have hw' : some ({ w with table := t' }.endRun vad) = some w' := by
        cases stage with
        | taken => cases hstep
        | ready state => cases hstep
        | called =>
          dsimp only at hstep
          rwa [heq] at hstep
        | skipped =>
          dsimp only at hstep
          rwa [heq] at hstep
        | failing error =>
          dsimp only at hstep
          rwa [heq] at hstep
      obtain rfl := Option.some.inj hw'
      obtain ⟨more, hlog, hmore⟩ := hended.extends
      rw [endRun_table]
      refine ⟨.finished r :: more, hlog, fun q b given hmem => ?_⟩
      rcases List.mem_cons.1 hmem with heq | hmem
      · cases heq
      · exact absurd rfl ((hmore _ hmem).2.2.2.1 q b given)
    · cases hstep

/-! ## The submit right before -/

/-- The state of a session is forgotten: a closing request is taken, or the
session is released. -/
def Entry.Forgets (S : Session) (e : Entry σ) : Prop :=
  (∃ id, e = .closed id) ∨ e = .sent (.sessionReleased S)

/-- **The predecessor of a submit left a state for it**: `before` is the log
up to the submit, and `since` what follows it. The predecessor is the last
VAD submit of the session in `before`, whatever became of it; it completed
in the utterance, and nothing between the two forgot the state. -/
def ContinuesFrom (S : Session) (before since : List (Entry σ)) (utteranceId : ℕ)
    (state : Option σ) : Prop :=
  ∃ front p header between, before = front ++ .arrived p header :: between ∧
    Table.vadSession? header = some S ∧
    (∀ q other, .arrived q other ∈ between → Table.vadSession? other ≠ some S) ∧
    (∀ e ∈ between, ¬ e.Forgets S) ∧ .scored p S utteranceId state ∈ between ++ since

theorem turn?_eq_arrived {e : Entry σ} {p : ℕ} (h : e.turn? S = some (.arrived p)) :
    ∃ header, e = .arrived p header ∧ Table.vadSession? header = some S := by
  unfold Entry.turn? at h
  split at h
  · rename_i r header
    split_ifs at h with hheader
    obtain rfl := Turn.arrived.inj (Option.some.inj h)
    exact ⟨header, rfl, hheader⟩
  · split_ifs at h
    cases h
  · cases h
  · split_ifs at h
    cases h
  · cases h

theorem turn?_eq_cleared {e : Entry σ} : e.turn? S = some .cleared ↔ e.Forgets S := by
  constructor
  · intro h
    unfold Entry.turn? at h
    split at h
    · split_ifs at h
      cases h
    · split_ifs at h
      cases h
    · rename_i id
      exact Or.inl ⟨id, rfl⟩
    · rename_i s
      split_ifs at h with hs
      exact Or.inr (by rw [hs])
    · cases h
  · rintro (⟨id, rfl⟩ | rfl)
    · rfl
    · simp [Entry.turn?]

theorem turn?_eq_scored {e : Entry σ} {p u : ℕ} {state : Option σ} :
    e.turn? S = some (.scored p u state) ↔ e = .scored p S u state := by
  constructor
  · intro h
    unfold Entry.turn? at h
    split at h
    · split_ifs at h
      cases h
    · split_ifs at h with hs
      obtain ⟨rfl, rfl, rfl⟩ := Turn.scored.inj (Option.some.inj h)
      rw [hs]
    · cases h
    · split_ifs at h
      cases h
    · cases h
  · rintro rfl
    simp [Entry.turn?]

/-- The line says the same of the predecessor as the log. -/
theorem continues_iff {before since : List (Entry σ)} {u : ℕ} {state : Option σ} :
    Line.Continues (turns S before) (turns S since) u state ↔
      ContinuesFrom S before since u state := by
  have hscored : ∀ {p : ℕ} {log : List (Entry σ)},
      (.scored p u state : Turn σ) ∈ turns S log ↔ .scored p S u state ∈ log := by
    intro p log
    unfold turns
    rw [List.mem_filterMap]
    constructor
    · rintro ⟨e, he, hturn⟩
      rw [← turn?_eq_scored.1 hturn]
      exact he
    · intro hmem
      exact ⟨_, hmem, turn?_eq_scored.2 rfl⟩
  have hquiet : ∀ {log : List (Entry σ)}, arrivals (turns S log) = [] ↔
      ∀ q other, .arrived q other ∈ log → Table.vadSession? other ≠ some S := by
    intro log
    rw [List.eq_nil_iff_forall_not_mem]
    constructor
    · intro hnone q other hmem hother
      refine hnone q (mem_arrivals.2 (List.mem_filterMap.2 ⟨_, hmem, ?_⟩))
      simp [Entry.turn?, hother]
    · intro hnone q hmem
      obtain ⟨e, he, hturn⟩ := List.mem_filterMap.1 (mem_arrivals.1 hmem)
      obtain ⟨header, rfl, hheader⟩ := turn?_eq_arrived hturn
      exact hnone q header he hheader
  have hcleared : ∀ {log : List (Entry σ)}, .cleared ∉ turns S log ↔ ∀ e ∈ log, ¬ e.Forgets S := by
    intro log
    constructor
    · intro hnone e he hforgets
      exact hnone (List.mem_filterMap.2 ⟨e, he, turn?_eq_cleared.2 hforgets⟩)
    · intro hnone hmem
      obtain ⟨e, he, hturn⟩ := List.mem_filterMap.1 hmem
      exact hnone e he (turn?_eq_cleared.1 hturn)
  constructor
  · rintro ⟨front, p, c, hbefore, hc, hnone, hmem⟩
    obtain ⟨log₁, log₂, rfl, -, hlog₂⟩ := List.filterMap_eq_append_iff.1 hbefore
    obtain ⟨skipped, e, between, rfl, -, hturn, hbetween⟩ := List.filterMap_eq_cons_iff.1 hlog₂
    obtain ⟨header, rfl, hheader⟩ := turn?_eq_arrived hturn
    obtain rfl : turns S between = c := hbetween
    refine ⟨log₁ ++ skipped, p, header, between, by simp, hheader, hquiet.1 hc, hcleared.1 hnone, ?_⟩
    rw [← turns_append] at hmem
    exact hscored.1 hmem
  · rintro ⟨front, p, header, between, rfl, hheader, hnone, hforgets, hmem⟩
    refine ⟨turns S front, p, turns S between, ?_, hquiet.2 hnone, hcleared.2 hforgets, ?_⟩
    · rw [turns_append]
      simp [turns, Entry.turn?, hheader]
    · rw [← turns_append]
      exact hscored.2 hmem

/-- What the log says of the state a job is given. -/
def Continued (past : List (Entry σ)) (r : Ref) (state : Option σ) : Prop :=
  ∃ before header since payload request S, past = before ++ .arrived r header :: since ∧
    readSubmit header payload = .ok request ∧ Table.vadSession? header = some S ∧
    (∀ left, ContinuesFrom S before since request.utteranceId left → state = left) ∧
    ((∀ left, ¬ ContinuesFrom S before since request.utteranceId left) → state = none)

theorem continued_of_kept (hsound : Sound t []) (hkept : ∀ S, (t.line S).Kept)
    (hread : ∀ q ∈ t.jobs, ReadFrom t.log q (t.objects q)) (hr : t.vadRunning = some r) :
    Continued t.log r (t.heldState r) := by
  have hjob := hsound.job_of_vadRunning hr
  have hvad : (t.objects r).vad = true := hsound.vad_of_vadJobs (by
    unfold Table.vadJobs
    simp [hr])
  obtain ⟨header, payload, request, hmem, hreads, hrequest, hheader⟩ := hread r hjob
  rw [if_pos hvad] at hheader
  obtain ⟨before, since, hlog⟩ := List.append_of_mem hmem
  obtain ⟨hqueue, heq⟩ := heldState_eq hsound hr hrequest
  have hturns : (t.line (t.objects r).session).turns =
      turns (t.objects r).session before ++ .arrived r :: turns (t.objects r).session since := by
    change turns _ t.log = _
    rw [hlog, turns_append]
    simp [turns, Entry.turn?, hheader]
  obtain ⟨hsome, hnone⟩ := (hkept _).given (u := request.utteranceId) hqueue hturns
  refine ⟨before, header, since, payload, request, _, hlog, hreads, hheader, ?_, ?_⟩
  · intro left hleft
    rw [heq]
    exact hsome left (continues_iff.2 hleft)
  · intro hleft
    rw [heq]
    exact hnone fun left hcontinues => hleft left (continues_iff.1 hcontinues)

/-! ## Every run -/

/-- The thread's run is as it was, or has just read the state. -/
theorem ready_cases {a : Act σ} {state : Option σ} (hstep : w.step a = some w')
    (hready : w'.vad = some (r, .ready state)) :
    w.vad = some (r, .ready state) ∨ (w'.table = w.table ∧ state = w.table.heldState r) := by
  have hcall : ∀ (q : Ref) (state' : Option σ), (w.table.call q state').2 ≠ .ready state := by
    intro q state'
    unfold Table.call
    dsimp only
    split
    · split_ifs
      · simp
      · simp
      · simp
      · simp
    · simp
  cases a with
  | handle header payload permit =>
    simp only [World.step] at hstep
    split at hstep
    · split at hstep
      · obtain rfl := Option.some.inj hstep
        exact Or.inl hready
      · cases hstep
    · cases hstep
  | unrun header =>
    obtain rfl := Option.some.inj hstep
    exact Or.inl hready
  | offer header payload =>
    simp only [World.step] at hstep
    split at hstep
    · obtain rfl := Option.some.inj hstep
      exact Or.inl hready
    · cases hstep
  | take =>
    simp only [World.step] at hstep
    split at hstep
    · obtain rfl := Option.some.inj hstep
      exact Or.inl hready
    · obtain rfl := Option.some.inj hstep
      exact Or.inl hready
    · cases hstep
  | «open» runsVad classes =>
    simp only [World.step] at hstep
    split at hstep
    · split at hstep
      · obtain rfl := Option.some.inj hstep
        exact Or.inl hready
      · cases hstep
    · cases hstep
  | dispatched =>
    simp only [World.step] at hstep
    split at hstep
    · obtain rfl := Option.some.inj hstep
      exact Or.inl hready
    · cases hstep
  | takeVad =>
    simp only [World.step] at hstep
    split at hstep
    · obtain rfl := Option.some.inj hstep
      cases hready
    · cases hstep
  | readState vad =>
    simp only [World.step] at hstep
    split at hstep
    · rename_i q hrun
      obtain rfl := Option.some.inj hstep
      cases vad with
      | false => exact Or.inl hready
      | true =>
        have heq : (q, Stage.ready (w.table.heldState q)) = (r, Stage.ready state) :=
          Option.some.inj hready
        obtain ⟨rfl, hstage⟩ := Prod.mk.inj heq
        exact Or.inr ⟨rfl, (Stage.ready.inj hstage).symm⟩
    · cases hstep
  | call vad =>
    simp only [World.step] at hstep
    split at hstep
    · rename_i q state' hrun
      obtain rfl := Option.some.inj hstep
      cases vad with
      | false => exact Or.inl hready
      | true =>
        have heq : (q, (w.table.call q state').2) = (r, Stage.ready state) := Option.some.inj hready
        exact absurd (Prod.mk.inj heq).2 (hcall q state')
    · cases hstep
  | finish vad outcome =>
    simp only [World.step] at hstep
    split at hstep
    · split at hstep
      · split at hstep
        · obtain rfl := Option.some.inj hstep
          cases vad with
          | false => exact Or.inl hready
          | true => cases hready
        · cases hstep
      · split at hstep
        · obtain rfl := Option.some.inj hstep
          cases vad with
          | false => exact Or.inl hready
          | true => cases hready
        · cases hstep
      · split at hstep
        · obtain rfl := Option.some.inj hstep
          cases vad with
          | false => exact Or.inl hready
          | true => cases hready
        · cases hstep
      · cases hstep
    · cases hstep

/-- **What the threads know of the lines.** -/
structure Aware (w : World σ) : Prop where
  kept : ∀ S, (w.table.line S).Kept
  read : ∀ q ∈ w.table.jobs, ReadFrom w.table.log q (w.table.objects q)
  ready : ∀ r state, w.vad = some (r, .ready state) → state = w.table.heldState r
  given : Lawful (fun past e => ∀ r b state, e = .started r b (some state) →
    Continued past r state) w.table.log

theorem Aware.step {a : Act σ} (h : Aware w) (hplaced : Placed w) (hstep : w.step a = some w') :
    Aware w' := by
  obtain ⟨hplaced', hchanges⟩ := hplaced.step hstep
  have hfollowed := hchanges.followed hplaced.sound hplaced.calm
  refine ⟨fun S => (h.kept S).steps (hfollowed.line S), hfollowed.read h.read, ?_, ?_⟩
  · intro r state hready
    rcases ready_cases hstep hready with hold | ⟨htable, hstate⟩
    · have hr : w.table.vadRunning = some r := by
        rw [hplaced.vad]
        exact congrArg (Option.map Prod.fst) hold
      have hr' : w'.table.vadRunning = some r := by
        rw [hplaced'.vad]
        exact congrArg (Option.map Prod.fst) hready
      rw [hfollowed.heldState hplaced.sound h.kept hr hr']
      exact h.ready r state hold
    · rw [htable]
      exact hstate
  · rcases step_log hplaced hstep with ⟨more, hlog, hmore⟩ | ⟨vad, r, state, b, given, hrun, hgiven, hlog⟩
    · rw [hlog]
      refine h.given.append fun e he past r b state heq => ?_
      rw [heq] at he
      exact absurd he (hmore r b (some state))
    · rw [hlog, lawful_append_singleton]
      refine ⟨h.given, fun q b' state' heq => ?_⟩
      obtain ⟨rfl, -, hstate⟩ := Entry.started.inj heq
      rw [hgiven] at hstate
      split_ifs at hstate with hvad
      obtain rfl := Option.some.inj hstate
      rw [hplaced.vad_of_run hrun] at hvad
      rw [hvad] at hrun
      have hr : w.table.vadRunning = some r := by
        rw [hplaced.vad, hrun]
        rfl
      rw [h.ready r state hrun]
      exact continued_of_kept hplaced.sound h.kept h.read hr

theorem aware_first : Aware ({} : World σ) := by
  refine ⟨fun S => Line.kept_first, ?_, ?_, lawful_nil⟩
  · intro q hq
    cases hq
  · intro r state hready
    cases hready

/-- **A VAD job continues exactly its predecessor, in every run**: the state
that `run_vad` is given is the one that the session's VAD submit right before
the job's own left, where that one completed in the same utterance and
neither a load or unload nor a release of the session came between them, and
none in every other case. -/
theorem vad_state_of_predecessor (hrun : Run World.step Free ({} : World σ) w)
    {past rest : List (Entry σ)} {b : Backend} {state : Option σ}
    (hlog : w.table.log = past ++ .started r b (some state) :: rest) :
    ∃ before header since payload request S, past = before ++ .arrived r header :: since ∧
      readSubmit header payload = .ok request ∧ Table.vadSession? header = some S ∧
      (∀ left, ContinuesFrom S before since request.utteranceId left → state = left) ∧
      ((∀ left, ¬ ContinuesFrom S before since request.utteranceId left) → state = none) := by
  have haware : Placed w ∧ Aware w := by
    refine hrun.invariant (I := fun w => Placed w ∧ Aware w) ⟨placed_first, aware_first⟩ ?_
    intro s a u h _ hstep
    exact ⟨(h.1.step hstep).1, h.2.step h.1 hstep⟩
  exact haware.2.given past _ rest hlog r b state rfl

/-- Two VAD jobs of one utterance, the second of them called. -/
def continuedWorld : World ℕ :=
  (exec World.step {} (loadActs ++ .handle (vadHeader 7 1) [0, 0, 0, 0] .permitted ::
    vadActs 5 ++ .handle (vadHeader 8 1) [0, 0, 0, 0] .permitted ::
    [.takeVad, .readState true, .call true])).getD {}

theorem continued_run : Run World.step Free ({} : World ℕ) continuedWorld :=
  Run.of_exec (exec_of_isSome (by decide +kernel))

/-- The second job is given what the first one left. -/
theorem vad_state_of_predecessor_second : ∃ past b rest,
    continuedWorld.table.log = past ++ .started 3 b (some (some 5)) :: rest ∧
      ∃ before header since S u, past = before ++ .arrived 3 header :: since ∧
        ContinuesFrom S before since u (some 5) := by
  have hmem : ∃ b, .started 3 b (some (some 5)) ∈ continuedWorld.table.log := by
    have hany : (continuedWorld.table.log.any fun e =>
        Entry.casesOn (motive := fun _ => Bool) e (fun _ => false) (fun _ _ => false)
          (fun _ => false) (fun _ _ _ _ => false) (fun _ => false) (fun _ => false)
          (fun _ _ => false) (fun q _ given => q = 3 && given = some (some 5))
          (fun _ => false)) = true := by decide +kernel
    obtain ⟨e, he, hmatch⟩ := List.any_eq_true.1 hany
    cases e with
    | started q b given =>
      dsimp only at hmatch
      rw [Bool.and_eq_true, decide_eq_true_eq, decide_eq_true_eq] at hmatch
      rw [hmatch.1, hmatch.2] at he
      exact ⟨b, he⟩
    | _ => exact absurd hmatch Bool.false_ne_true
  obtain ⟨b, hmem⟩ := hmem
  obtain ⟨past, rest, hlog⟩ := List.append_of_mem hmem
  obtain ⟨before, header, since, payload, request, S, hpast, -, -, hsome, hnone⟩ :=
    vad_state_of_predecessor continued_run hlog
  refine ⟨past, b, rest, hlog, before, header, since, S, request.utteranceId, hpast, ?_⟩
  by_contra hcontinues
  have hstate : (some 5 : Option ℕ) = none := by
    refine hnone fun left hleft => hcontinues ?_
    rw [hsome left hleft]
    exact hleft
  cases hstate

end Sidecar

end Tensorplate
