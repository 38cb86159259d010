import Tensorplate.Sidecar.Changes
import Mathlib.Logic.Relation

/-!
# The calls of the threads

No call refuses one of its own events, and each of them is a sequence of
changes of the table.
-/

namespace Tensorplate

namespace Sidecar

open Lib

variable {σ : Type} {t t' : Table σ} {r q : Ref} {header : Header} {payload : List UInt8}

/-- A sequence of reactions. -/
abbrev Reactions (t t' : Table σ) : Prop := Relation.ReflTransGen Reaction t t'

theorem Reactions.log (h : Reactions t t') :
    ∃ more, t'.log = t.log ++ more ∧ ∀ e ∈ more, e.IsReaction := by
  induction h with
  | refl => exact ⟨[], (List.append_nil _).symm, fun e he => by cases he⟩
  | tail _ hreaction ih =>
    obtain ⟨more, hlog, hmore⟩ := ih
    obtain ⟨more', hlog', hmore'⟩ := hreaction.log
    refine ⟨more ++ more', by rw [hlog', hlog, List.append_assoc], fun e he => ?_⟩
    rcases List.mem_append.1 he with he | he
    · exact hmore e he
    · exact hmore' e he

theorem Sound.reactions (h : Sound t []) (hcalm : Calm t) (hreactions : Reactions t t') :
    Sound t' [] ∧ Calm t' := by
  induction hreactions with
  | refl => exact ⟨h, hcalm⟩
  | tail _ hreaction ih => exact ih.1.reaction ih.2 hreaction

/-! ## Answers -/

theorem short_some {text : String} (h : utf8Size text ≤ limitErrorTextMaxBytes) :
    ∀ reason ∈ some text, utf8Size reason ≤ limitErrorTextMaxBytes := by
  intro reason hreason
  obtain rfl := Option.some.inj hreason
  exact h

theorem refuse_spec (t : Table σ) (header : Header) {context : Option String}
    (h : ∀ text ∈ context, utf8Size text ≤ limitErrorTextMaxBytes) :
    ∃ e : Entry σ, e.IsAnswer ∧ t.refuse header context = .ok (t.mark e) := by
  unfold Table.refuse
  rw [bind_of_ok (errorObject_fixed .configInvalid h)]
  exact ⟨_, ⟨_, _, rfl⟩, rfl⟩

theorem refuseRead_spec (t : Table σ) (header : Header) {e : Refusal}
    (h : ∀ reason, e = .refused reason → utf8Size reason ≤ limitErrorTextMaxBytes) :
    ∃ answer : Entry σ, answer.IsAnswer ∧
      t.refuseRead header e = .ok ((t.mark answer).resetUnrun header) := by
  cases e with
  | malformed =>
    have hnone : ∀ reason ∈ (none : Option String), utf8Size reason ≤ limitErrorTextMaxBytes := by
      intro reason hreason
      cases hreason
    obtain ⟨answer, hanswer, heq⟩ := refuse_spec t header hnone
    exact ⟨answer, hanswer, bind_of_ok heq⟩
  | refused reason =>
    obtain ⟨answer, hanswer, heq⟩ := refuse_spec t header (short_some (h reason rfl))
    exact ⟨answer, hanswer, bind_of_ok heq⟩

theorem resetUnrun_of_not_submit (t : Table σ)
    (h : isText (get header "kind") "job_submit" = false) : t.resetUnrun header = t := by
  unfold Table.resetUnrun Table.vadSession?
  simp [h]

/-! ## Submits -/

/-- What `readJob` reads. -/
theorem readJob_eq_ok {identity : JobIdentity} {request : Except String JobRequest}
    (h : Table.readJob header payload = .ok (identity, request)) :
    identity.Valid ∧ readSession header = .ok identity.session ∧
      (∀ rq, request = .ok rq → readSubmit header payload = .ok rq ∧ rq.identity = identity) ∧
      ∀ reason, request = .error reason → utf8Size reason ≤ limitErrorTextMaxBytes := by
  unfold Table.readJob at h
  split at h
  · cases h
  · rename_i reason hreason
    simp only [bind_eq_ok] at h
    obtain ⟨i, hi, heq⟩ := h
    obtain ⟨rfl, rfl⟩ := Prod.mk.inj (Except.ok.inj heq)
    obtain ⟨hvalid, hsession⟩ := readSession_of_readIdentity hi
    refine ⟨hvalid, hsession, fun rq hrq => (by cases hrq), fun reason' hr => ?_⟩
    obtain rfl := Except.error.inj hr
    exact short_readSubmit header payload reason hreason
  · rename_i rq hrq
    simp only [bind_eq_ok] at h
    obtain ⟨i, hi, heq⟩ := h
    obtain ⟨rfl, rfl⟩ := Prod.mk.inj (Except.ok.inj heq)
    obtain ⟨hvalid, hsession⟩ := readSession_of_readIdentity hi
    refine ⟨hvalid, hsession, fun rq' hrq' => ?_, fun reason hr => (by cases hr)⟩
    obtain rfl := Except.ok.inj hrq'
    refine ⟨hrq, ?_⟩
    have hread := (readSubmit_eq_ok hrq).1
    rw [hread] at hi
    exact Except.ok.inj hi

theorem makeJob_identity (header : Header) (backend : Backend) (identity : JobIdentity)
    (request : Except String JobRequest) :
    (Table.makeJob header backend identity request).identity = identity ∧
      (Table.makeJob header backend identity request).vad =
        isText (get header "job_class") "vad_frames" := by
  cases request with
  | error reason => exact ⟨rfl, rfl⟩
  | ok request => exact ⟨rfl, rfl⟩

theorem vadSession?_of_read {session : Session}
    (hsubmit : isText (get header "kind") "job_submit" = true)
    (hsession : readSession header = .ok session) :
    Table.vadSession? header =
      if isText (get header "job_class") "vad_frames" then some session else none := by
  unfold Table.vadSession?
  rw [hsubmit, hsession, Bool.true_and]
  rfl

section Submit

variable {backend : Backend} {identity : JobIdentity} {request : Except String JobRequest}

theorem find_eq_none (h : (t.find identity.jobId).isSome = false) :
    ∀ q ∈ t.jobs, (t.objects q).identity.jobId ≠ identity.jobId := by
  rw [Option.isSome_eq_false_iff, Option.isNone_iff_eq_none] at h
  intro q hq hid
  have hnone := List.find?_eq_none.1 h q hq
  exact hnone (by simpa using hid)

theorem made_of_read (hsubmit : isText (get header "kind") "job_submit" = true)
    (hread : Table.readJob header payload = .ok (identity, request))
    (hnew : (t.find identity.jobId).isSome = false) (backend : Backend) :
    Made t header (Table.makeJob header backend identity request) := by
  obtain ⟨hvalid, hsession, hrequest, -⟩ := readJob_eq_ok hread
  obtain ⟨hidentity, hvad⟩ := makeJob_identity header backend identity request
  refine ⟨makeJob_unsent backend hvalid fun rq hrq => (hrequest rq hrq).2, ?_, hsubmit, ?_⟩
  · rw [hidentity]
    exact find_eq_none hnew
  · rw [hvad]
    unfold Job.session
    rw [hidentity]
    exact vadSession?_of_read hsubmit hsession

/-- What becomes of a new job: it is refused, or it is admitted. -/
def Starts (t : Table σ) (header : Header) (identity : JobIdentity) (t' : Table σ) : Prop :=
  ∃ job : Job, job.identity = identity ∧
    ((∃ error, Made t header job ∧
        Ended (t.made header job) ((t.made header job).leaveLane t.next) t' t.next error) ∨
      Admitted t header job ∧ Accepted (t.made header job) t' t.next)

theorem endJob_made {job : Job} (hmade : Made t header job) {context : Option String}
    (hcontext : ∀ text ∈ context, utf8Size text ≤ limitErrorTextMaxBytes) (code : ErrorCode)
    (message : Option String) :
    ∃ t', (t.made header job).endJob t.next code context message = .ok t' ∧
      Starts t header job.identity t' := by
  have hopen : Open ((t.made header job).objects t.next) := by
    rw [made_object]
    exact hmade.toOpen
  obtain ⟨t', error, heq, hended⟩ := endJob_spec hopen hcontext code message
  exact ⟨t', heq, job, rfl, Or.inl ⟨error, hmade, hended⟩⟩

/-- **A submit of a new identifier starts one job.** -/
theorem submit_new (hsubmit : isText (get header "kind") "job_submit" = true)
    (hread : Table.readJob header payload = .ok (identity, request))
    (hbackend : t.backend = some backend) (hnew : (t.find identity.jobId).isSome = false)
    (permit : Permit) :
    ∃ t', (t.arrive header).submit t.next header backend permit identity request = .ok t' ∧
      Starts t header identity t' := by
  have hmade := made_of_read hsubmit hread hnew backend
  obtain ⟨hidentity, -⟩ := makeJob_identity header backend identity request
  obtain ⟨-, -, hrequest, hreason⟩ := readJob_eq_ok hread
  have hend : ∀ (context : Option String) (code : ErrorCode) (message : Option String),
      (∀ text ∈ context, utf8Size text ≤ limitErrorTextMaxBytes) →
      ∃ t', (t.made header (Table.makeJob header backend identity request)).endJob t.next code
        context message = .ok t' ∧ Starts t header identity t' := by
    intro context code message hcontext
    have h := endJob_made hmade hcontext code message
    rwa [hidentity] at h
  unfold Table.submit
  dsimp only
  rw [if_neg (by
    change ¬ (t.find identity.jobId).isSome = true
    rw [hnew]
    exact Bool.false_ne_true)]
  cases request with
  | error reason => exact hend _ _ _ (short_some (hreason reason rfl))
  | ok rq =>
    dsimp only
    split
    · exact hend _ _ _ (short_some (by decide))
    · cases permit with
      | failed error => exact hend _ _ _ (by simp)
      | notPermitted => exact hend _ _ _ (short_some (by decide))
      | permitted =>
        dsimp only
        split
        · exact hend _ _ _ (short_some (by decide))
        · rename_i hreleasing
          split
          · exact hend _ _ _ (short_some (by decide))
          have hunsent : Unsent ((t.made header
              (Table.makeJob header backend identity (.ok rq))).objects t.next) := by
            rw [made_object]
            exact hmade.toUnsent
          obtain ⟨t', heq, haccepted⟩ := accept_spec hunsent
          refine ⟨t', heq, _, hidentity, Or.inr ⟨⟨hmade, ?_, ?_, ?_, ?_⟩, haccepted⟩⟩
          · have hrq := (hrequest rq rfl).1
            exact ⟨payload, rq, hrq, rfl, (readSubmit_eq_ok hrq).2.1⟩
          · exact hbackend.symm
          · rw [hbackend]
            rfl
          · rw [Bool.not_eq_true] at hreleasing
            exact hreleasing

/-- **A submit of a live identifier is only answered.** -/
theorem submit_duplicate (hsubmit : isText (get header "kind") "job_submit" = true)
    (hread : Table.readJob header payload = .ok (identity, request))
    (hlive : (t.find identity.jobId).isSome = true) (backend : Backend) (permit : Permit) :
    ∃ answer : Entry σ, answer.IsAnswer ∧
      (t.arrive header).submit t.next header backend permit identity request =
        .ok ((t.noted header [answer]).resetUnrun header) := by
  obtain ⟨-, hsession, -⟩ := readJob_eq_ok hread
  obtain ⟨hidentity, hvad⟩ := makeJob_identity header backend identity request
  obtain ⟨answer, hanswer, heq⟩ := refuse_spec (t.arrive header) header
    (short_some (show utf8Size "duplicate_job_id" ≤ limitErrorTextMaxBytes by decide))
  refine ⟨answer, hanswer, ?_⟩
  unfold Table.submit
  dsimp only
  rw [if_pos (show ((t.arrive header).find identity.jobId).isSome = true from hlive),
    bind_of_ok heq]
  unfold Table.resetUnrun
  rw [vadSession?_of_read hsubmit hsession, hvad]
  unfold Job.session
  rw [hidentity]
  split_ifs
  · rfl
  · rfl

end Submit

theorem Starts.reaction {identity : JobIdentity} (h : Starts t header identity t') :
    Reaction t t' := by
  obtain ⟨job, -, ⟨error, hmade, hended⟩ | ⟨hadmitted, haccepted⟩⟩ := h
  · exact Reaction.refused hmade hended
  · exact Reaction.accepted hadmitted haccepted

/-! ## Cancels and session releases -/

theorem short_none : ∀ reason ∈ (none : Option String), utf8Size reason ≤ limitErrorTextMaxBytes := by
  intro reason hreason
  cases hreason

/-- **A cancel of a live job** reaches no other. -/
theorem cancel_reacts (h : Sound t []) (hr : r ∈ t.jobs) :
    ∃ t', t.cancel r = .ok t' ∧ Reactions t t' ∧ ∀ q ∈ t.jobs, q ≠ r → q ∈ t'.jobs := by
  by_cases hc : (t.objects r).cancelled = true
  · refine ⟨t, ?_, Relation.ReflTransGen.refl, fun q hq _ => hq⟩
    unfold Table.cancel
    exact if_pos hc
  rw [Bool.not_eq_true] at hc
  have hlive := h.live r hr
  obtain ⟨t₁, hack, h₁⟩ := acknowledge_spec hlive.toOpen (hlive.acknowledged.trans hc)
  rw [cancel_eq t r hc, bind_of_ok hack]
  by_cases hrun : t.Runs r
  · refine ⟨t₁, if_neg ?_, Relation.ReflTransGen.single (.acknowledged hrun hc h₁), fun q hq _ => ?_⟩
    · rw [h₁.running, h₁.vadRunning]
      rcases hrun with hrun | hrun
      · simp [hrun]
      · simp [hrun]
    · rw [h₁.jobs]
      exact hq
  · have hrunning : t.running ≠ some r := fun heq => hrun (Or.inl heq)
    have hvadRunning : t.vadRunning ≠ some r := fun heq => hrun (Or.inr heq)
    have hwaiting : r ∈ t.waiting := by
      have hplaced := mem_placed_iff.1 ((h.mem_placed r).2 hr)
      rcases hplaced with hw | hw | hw | hw
      · exact hw
      · exact absurd hw hrunning
      · exact absurd hw hvadRunning
      · cases hw
    have hopen₁ : Open (t₁.objects r) := by
      rw [h₁.object]
      exact hlive.acknowledge.toOpen
    obtain ⟨t', error, hend, hended⟩ := endJob_spec hopen₁ short_none .cancelled none
    refine ⟨t', ?_, Relation.ReflTransGen.single (.cancelled hwaiting h₁ hended), fun q hq hqr => ?_⟩
    · rw [if_pos (by rw [h₁.running, h₁.vadRunning]; simp [hrunning, hvadRunning])]
      exact hend
    · have hsound₁ := h₁.sound h
      have hremoved := hended.removed hsound₁ fun q' hq' hid =>
        hsound₁.ids q' hq' r (by rw [h₁.jobs]; exact hr) hid
      rw [hremoved.jobs, hsound₁.nodup.mem_erase_iff, h₁.jobs]
      exact ⟨hqr, hq⟩

/-- One cancel after another. -/
theorem cancels_reacts (qs : List Ref) : ∀ {t : Table σ}, Sound t [] → Calm t → qs.Nodup →
    (∀ q ∈ qs, q ∈ t.jobs) → ∃ t', qs.foldlM Table.cancel t = .ok t' ∧ Reactions t t' := by
  induction qs with
  | nil =>
    intro t _ _ _ _
    exact ⟨t, rfl, Relation.ReflTransGen.refl⟩
  | cons q rest ih =>
    intro t h hcalm hnodup hmem
    rw [List.nodup_cons] at hnodup
    obtain ⟨t₁, hcancel, hreactions, hothers⟩ := cancel_reacts h (hmem q (by simp))
    obtain ⟨h₁, hcalm₁⟩ := h.reactions hcalm hreactions
    have hmem₁ : ∀ q' ∈ rest, q' ∈ t₁.jobs := by
      intro q' hq'
      refine hothers q' (hmem q' (by simp [hq'])) ?_
      rintro rfl
      exact hnodup.1 hq'
    obtain ⟨t', hrest, hreactions'⟩ := ih h₁ hcalm₁ hnodup.2 hmem₁
    refine ⟨t', ?_, hreactions.trans hreactions'⟩
    rw [List.foldlM_cons, bind_of_ok hcancel]
    exact hrest

theorem settle_of_not_settles {s : Session} (h : ¬ Settles t s) : t.settle s = t := by
  unfold Table.settle
  rw [if_pos]
  by_contra hif
  refine h ⟨?_, fun q hq hqs => ?_⟩
  · by_contra hreleasing
    rw [Bool.not_eq_true] at hreleasing
    exact hif (by simp [hreleasing])
  · refine hif ?_
    rw [Bool.or_eq_true]
    right
    rw [List.any_eq_true]
    exact ⟨q, hq, by simpa using hqs⟩

/-- A sound table has settled every release. -/
theorem Sound.settle (h : Sound t []) (s : Session) : t.settle s = t := by
  apply settle_of_not_settles
  rintro ⟨hreleasing, hnone⟩
  obtain ⟨q, hq, hqs⟩ := h.pending s hreleasing
  exact hnone q hq hqs

/-- The part of `releaseSession` before the cancels. -/
def Table.pend (t : Table σ) (s : Session) : Table σ :=
  { (if t.releasing s then t else t.mark (.pending s)) with
    releasing := fun s' => if s' = s then true else t.releasing s' }

theorem releaseSession_eq (t : Table σ) (s : Session) :
    t.releaseSession s = (do
      let t₁ ← ((t.pend s).jobs.filter fun q => ((t.pend s).objects q).session = s).foldlM
        Table.cancel (t.pend s)
      pure (t₁.settle s)) := by
  unfold Table.releaseSession Table.pend Table.mark
  dsimp only
  split_ifs
  · rfl
  · rfl

theorem pend_of_releasing {s : Session} (h : t.releasing s = true) : t.pend s = t := by
  unfold Table.pend
  rw [if_pos h]
  have hsame : (fun s' => if s' = s then true else t.releasing s') = t.releasing := by
    funext s'
    split_ifs with heq
    · rw [heq, h]
    · rfl
  rw [hsame]

theorem pend_of_not_releasing {s : Session} (h : t.releasing s = false) : t.pend s = { t with
    releasing := Function.update t.releasing s true, log := t.log ++ [.pending s] } := by
  unfold Table.pend Table.mark
  rw [if_neg (by rw [h]; exact Bool.false_ne_true)]
  have hsame : (fun s' => if s' = s then true else t.releasing s') =
      Function.update t.releasing s true := by
    funext s'
    rw [Function.update_apply]
  rw [← hsame]

/-- **A session release that finds no job is answered at once.** -/
theorem settle_pend {s : Session} (h : t.releasing s = false)
    (hnone : ∀ q ∈ t.jobs, (t.objects q).session ≠ s) :
    (t.pend s).settle s = { t with
      vadSessions := Function.update t.vadSessions s none
      log := t.log ++ [.pending s, .sent (.sessionReleased s)] } := by
  rw [pend_of_not_releasing h]
  unfold Table.settle Table.setSession Table.mark
  rw [if_neg]
  · dsimp only
    have hreleasing : (fun s' => if s' = s then false
        else Function.update t.releasing s true s') = t.releasing := by
      funext s'
      split_ifs with heq
      · rw [heq, h]
      · exact Function.update_of_ne heq _ _
    have hheld : (fun s' => if s' = s then none else t.vadSessions s') =
        Function.update t.vadSessions s none := by
      funext s'
      rw [Function.update_apply]
    rw [hreleasing, hheld, List.append_assoc]
    rfl
  · rw [Bool.or_eq_true, not_or, List.any_eq_true]
    refine ⟨by simp, ?_⟩
    rintro ⟨q, hq, hqs⟩
    exact hnone q hq (by simpa using hqs)

theorem releaseSession_reacts (h : Sound t []) (hcalm : Calm t) (s : Session) :
    ∃ t', t.releaseSession s = .ok t' ∧ Reactions t t' := by
  rw [releaseSession_eq]
  by_cases hlive : t.releasing s = false ∧ ∀ q ∈ t.jobs, (t.objects q).session ≠ s
  · obtain ⟨hreleasing, hnone⟩ := hlive
    have hempty : ((t.pend s).jobs.filter fun q => ((t.pend s).objects q).session = s) = [] := by
      rw [pend_of_not_releasing hreleasing, List.filter_eq_nil_iff]
      intro q hq
      simpa using hnone q hq
    rw [hempty]
    refine ⟨_, rfl, ?_⟩
    rw [settle_pend hreleasing hnone]
    exact Relation.ReflTransGen.single (.released hreleasing hnone)
  · have hpend : Reactions t (t.pend s) := by
      by_cases hreleasing : t.releasing s = true
      · rw [pend_of_releasing hreleasing]
      · rw [Bool.not_eq_true] at hreleasing
        rw [pend_of_not_releasing hreleasing]
        refine Relation.ReflTransGen.single (.pended hreleasing ?_)
        by_contra hnone
        push Not at hnone
        exact hlive ⟨hreleasing, hnone⟩
    obtain ⟨h₁, hcalm₁⟩ := h.reactions hcalm hpend
    obtain ⟨t', heq, hreactions⟩ := cancels_reacts
      ((t.pend s).jobs.filter fun q => ((t.pend s).objects q).session = s) h₁ hcalm₁
      (h₁.nodup.filter _) (fun q hq => (List.mem_filter.1 hq).1)
    refine ⟨t', ?_, hpend.trans hreactions⟩
    rw [bind_of_ok heq]
    exact congrArg Except.ok ((h₁.reactions hcalm₁ hreactions).1.settle s)

/-! ## Messages -/

theorem noted_mark (t : Table σ) (header : Header) (answer : Entry σ) :
    (t.arrive header).mark answer = t.noted header [answer] := rfl

/-- **No message is refused for an event of the table.** -/
theorem handle_reacts (h : Sound t []) (hcalm : Calm t) (header : Header) (payload : List UInt8)
    (permit : Permit) :
    ∃ t' took, t.handle header payload permit = .ok (t', took) ∧ Reactions t t' := by
  unfold Table.handle
  by_cases hsubmit : isText (get header "kind") "job_submit" = true
  · rw [if_pos hsubmit]
    rcases hbackend : t.backend with _ | backend
    · exact ⟨t, false, rfl, Relation.ReflTransGen.refl⟩
    · dsimp only
      rcases hread : Table.readJob header payload with e | ⟨identity, request⟩
      · have hshort : ∀ reason, e = .refused reason → utf8Size reason ≤ limitErrorTextMaxBytes := by
          rintro reason rfl
          unfold Table.readJob at hread
          split at hread
          · cases hread
          · rcases bind_eq_error.1 hread with herror | ⟨_, -, herror⟩
            · exact short_readIdentity header reason herror
            · cases herror
          · rcases bind_eq_error.1 hread with herror | ⟨_, -, herror⟩
            · exact short_readIdentity header reason herror
            · cases herror
        obtain ⟨answer, hanswer, heq⟩ := refuseRead_spec (t.arrive header) header hshort
        refine ⟨_, true, by dsimp only; rw [bind_of_ok heq]; rfl, ?_⟩
        rw [noted_mark]
        refine Relation.ReflTransGen.single (.unread hsubmit fun e he => ?_)
        rw [List.mem_singleton.1 he]
        exact hanswer
      · dsimp only
        by_cases hlive : (t.find identity.jobId).isSome = true
        · obtain ⟨answer, hanswer, heq⟩ :=
            submit_duplicate hsubmit hread hlive backend permit
          refine ⟨_, true, by rw [bind_of_ok heq]; rfl, ?_⟩
          refine Relation.ReflTransGen.single (.unread hsubmit fun e he => ?_)
          rw [List.mem_singleton.1 he]
          exact hanswer
        · rw [Bool.not_eq_true] at hlive
          obtain ⟨t', heq, hstarts⟩ := submit_new hsubmit hread hbackend hlive permit
          exact ⟨t', true, by rw [bind_of_ok heq]; rfl,
            Relation.ReflTransGen.single hstarts.reaction⟩
  · rw [if_neg hsubmit]
    rw [Bool.not_eq_true] at hsubmit
    have hanswered : ∀ e : Refusal,
        (∀ reason, e = .refused reason → utf8Size reason ≤ limitErrorTextMaxBytes) →
        ∃ t' took, (do
          let t ← t.refuseRead header e
          pure (t, true) : Except Refusal (Table σ × Bool)) = .ok (t', took) ∧ Reactions t t' := by
      intro e hshort
      obtain ⟨answer, hanswer, heq⟩ := refuseRead_spec t header hshort
      rw [resetUnrun_of_not_submit _ hsubmit] at heq
      exact ⟨_, true, by rw [bind_of_ok heq]; rfl, Relation.ReflTransGen.single (.note hanswer)⟩
    split
    · exact ⟨t, false, rfl, Relation.ReflTransGen.refl⟩
    split
    · rcases hread : readCancel header with e | identity
      · exact hanswered e fun reason heq => short_readCancel header reason (by rw [hread, heq])
      · dsimp only
        rcases hfind : t.find identity.jobId with _ | q
        · exact ⟨t, true, rfl, Relation.ReflTransGen.refl⟩
        · dsimp only
          split
          · obtain ⟨answer, hanswer, heq⟩ := refuse_spec t header
              (short_some (show utf8Size "identity_mismatch" ≤ limitErrorTextMaxBytes by decide))
            exact ⟨_, true, by rw [bind_of_ok heq]; rfl,
              Relation.ReflTransGen.single (.note hanswer)⟩
          · obtain ⟨t', heq, hreactions, -⟩ := cancel_reacts h (List.mem_of_find?_eq_some hfind)
            exact ⟨t', true, by rw [bind_of_ok heq]; rfl, hreactions⟩
    · rcases hread : readSessionRelease header with e | session
      · exact hanswered e fun reason heq =>
          short_readSessionRelease header reason (by rw [hread, heq])
      · obtain ⟨t', heq, hreactions⟩ := releaseSession_reacts h hcalm session
        exact ⟨t', true, by dsimp only; rw [bind_of_ok heq]; rfl, hreactions⟩

theorem unrun_reacts (t : Table σ) (header : Header) : Reactions t (t.unrun header) := by
  unfold Table.unrun
  split
  · rename_i hsubmit
    refine Relation.ReflTransGen.single ?_
    have hreaction : Reaction t ((t.noted header []).resetUnrun header) := .unread hsubmit (by simp)
    unfold Table.noted at hreaction
    rwa [List.append_nil] at hreaction
  · rename_i hsubmit
    rw [Bool.not_eq_true] at hsubmit
    rw [resetUnrun_of_not_submit t hsubmit]

/-! ## Unary requests -/

/-- What the failures of a closing request leave: the jobs of the list no
longer wait. -/
structure Failed (t t' : Table σ) (qs : List Ref) : Prop extends Steady t t' where
  reactions : Reactions t t'
  frames : t'.frames = t.frames
  failed : ∀ q ∈ qs, ∃ error, .sent (.event q (t.objects q).identity (.failed error)) ∈ t'.log
  waiting : ∀ q, q ∈ t'.waiting ↔ q ∈ t.waiting ∧ q ∉ qs

/-- The jobs that wait fail one after another. -/
theorem fails_reacts (qs : List Ref) : ∀ {t : Table σ}, Sound t [] → Calm t → qs.Nodup →
    (∀ q ∈ qs, q ∈ t.waiting) →
    ∃ t', qs.foldlM (fun t r => t.endJob r .unavailable (some "backend_unavailable") none) t =
      .ok t' ∧ Failed t t' qs := by
  induction qs with
  | nil =>
    intro t _ _ _ _
    exact ⟨t, rfl, Steady.refl t, Relation.ReflTransGen.refl, rfl, by simp, by simp⟩
  | cons r rest ih =>
    intro t h hcalm hnodup hmem
    rw [List.nodup_cons] at hnodup
    have hwaiting := hmem r (by simp)
    have hjob := h.job_of_waiting hwaiting
    obtain ⟨t₁, error, hend, hended⟩ := endJob_spec (h.live r hjob).toOpen
      (short_some (show utf8Size "backend_unavailable" ≤ limitErrorTextMaxBytes by decide))
      .unavailable none
    have hreaction : Reaction t t₁ := .failed hwaiting hended
    obtain ⟨h₁, hcalm₁⟩ := h.reaction hcalm hreaction
    have hremoved := hended.removed h fun q hq hid => h.ids q hq r hjob hid
    have hwaiting₁ : ∀ q, q ∈ t₁.waiting ↔ q ∈ t.waiting ∧ q ≠ r := by
      intro q
      unfold Table.waiting
      rw [hremoved.refs, hremoved.vadLane, List.mem_append, List.mem_append,
        (List.nodup_append.1 h.nodup_waiting).1.mem_erase_iff,
        (List.nodup_append.1 h.nodup_waiting).2.1.mem_erase_iff]
      tauto
    obtain ⟨t', hrest, h'⟩ := ih h₁ hcalm₁ hnodup.2 fun q hq => by
      rw [hwaiting₁]
      refine ⟨hmem q (by simp [hq]), ?_⟩
      rintro rfl
      exact hnodup.1 hq
    refine ⟨t', ?_, hremoved.toSteady.trans h'.toSteady, h'.reactions.head hreaction,
      h'.frames.trans hremoved.frames, fun q hq => ?_, fun q => ?_⟩
    · rw [List.foldlM_cons, bind_of_ok hend]
      exact hrest
    · rcases List.mem_cons.1 hq with rfl | hlater
      · obtain ⟨more, hlog, -, hfailed⟩ := hended.log
        obtain ⟨more', hlog', -⟩ := h'.reactions.log
        refine ⟨error, ?_⟩
        rw [hlog', hlog]
        exact List.mem_append_left _ (List.mem_append_right _ hfailed)
      · obtain ⟨error', hfailed⟩ := h'.failed q hlater
        have hqr : q ≠ r := by
          rintro rfl
          exact hnodup.1 hlater
        rw [(core_eq (hremoved.others q hqr)).1] at hfailed
        exact ⟨error', hfailed⟩
    · rw [h'.waiting, hwaiting₁, List.mem_cons]
      tauto

/-- **What an offer leaves.** -/
inductive Offered (t : Table σ) (header : Header) (payload : List UInt8) (closing : Bool) :
    Table σ × Bool → Prop
  /-- Too many requests wait. -/
  | full (h : unaryQueueDepth ≤ (t.lane.filter fun work => work.ref?.isNone).length) :
    Offered t header payload closing (t, false)
  | queued (h : closing = false) : Offered t header payload closing
      ({ t with next := t.next + 1, lane := t.lane ++ [.frame ⟨t.next, header, payload⟩] }, true)
  /-- Every job that waited has failed. -/
  | closes {t₁ : Table σ} (h : closing = true) (hfailed : Failed t.close t₁ t.waiting) :
    Offered t header payload closing
      ({ t₁ with lane := t₁.lane ++ [.frame ⟨t.next, header, payload⟩] }, true)

/-- **No offer is refused for an event of the table.** -/
theorem offer_spec (h : Sound t []) (hcalm : Calm t) (header : Header) (payload : List UInt8)
    (closing : Bool) :
    ∃ left, t.offer header payload closing = .ok left ∧ Offered t header payload closing left := by
  unfold Table.offer
  split
  · rename_i hfull
    exact ⟨_, rfl, .full hfull⟩
  · cases closing with
    | false => exact ⟨_, rfl, .queued rfl⟩
    | true =>
      obtain ⟨hclosed, hcalmed⟩ := h.change hcalm .closes
      obtain ⟨t₁, hfails, hfailed⟩ := fails_reacts t.waiting hclosed hcalmed h.nodup_waiting
        fun q hq => hq
      refine ⟨_, ?_, .closes rfl hfailed⟩
      change ((t.waiting.foldlM _ t.close >>= _) : Except Refusal (Table σ × Bool)) = _
      rw [bind_of_ok hfails]
      rfl

/-! ## Ends of a run -/

/-- The job of a run has failed, or it has completed. -/
def RunEnded (t t' : Table σ) (r : Ref) : Prop :=
  (∃ error, Ended (t.letGo r) ((t.letGo r).leaveLane r) t' r error) ∨
    ∃ rendered state, Completed (t.letGo r) t' r rendered state

theorem RunEnded.change (h : RunEnded t t' r) (hr : t.Runs r) : Change t t' := by
  rcases h with ⟨error, hended⟩ | ⟨rendered, state, hcompleted⟩
  · exact .failedRun hr hended
  · exact .completedRun hr hcompleted

theorem RunEnded.removed (h : RunEnded t t' r) (hsound : Sound t []) (hr : t.Runs r) :
    Removed (t.letGo r) t' r := by
  obtain ⟨hsound₁, -, -⟩ := hsound.letGo hr
  obtain ⟨hlane, hvadLane, hjobs, -⟩ := letGo_frame t r
  have hids : ∀ q ∈ (t.letGo r).jobs, ((t.letGo r).objects q).identity.jobId =
      ((t.letGo r).objects r).identity.jobId → q = r := by
    intro q hq hid
    exact hsound₁.ids q hq r (by rw [hjobs]; exact hsound.job_of_runs hr) hid
  rcases h with ⟨error, hended⟩ | ⟨rendered, state, hcompleted⟩
  · exact hended.removed hsound₁ hids
  · refine hcompleted.removed hsound₁ ?_ hids
    unfold Table.waiting
    rw [refs_congr hlane, hvadLane]
    exact hsound.not_waiting_of_runs hr

/-- **No end of a run is refused.** -/
theorem finish_spec (h : Sound t []) (hr : t.Runs r) (stage : Stage σ) (outcome : Outcome σ) :
    ∃ t', t.finish r stage outcome = .ok t' ∧ RunEnded t t' r := by
  obtain ⟨-, -, -, hobjects, -⟩ := letGo_frame t r
  have hlive := h.live r (h.job_of_runs hr)
  have hopen : Open ((t.letGo r).objects r) := by
    rw [hobjects]
    exact hlive.toOpen
  have hend : ∀ (code : ErrorCode) (context message : Option String),
      (∀ text ∈ context, utf8Size text ≤ limitErrorTextMaxBytes) →
      ∃ t', (t.letGo r).endJob r code context message = .ok t' ∧ RunEnded t t' r := by
    intro code context message hcontext
    obtain ⟨t', error, heq, hended⟩ := endJob_spec hopen hcontext code message
    exact ⟨t', heq, Or.inl ⟨error, hended⟩⟩
  unfold Table.finish Table.failJob
  dsimp only
  split
  · exact hend _ _ _ short_none
  split
  · exact hend _ _ _ short_none
  · exact hend _ _ _ short_none
  · rename_i result state
    split
    · exact hend _ _ _ short_none
    · rename_i reason hreason
      exact hend _ _ _ (short_some (short_renderResult result reason hreason))
    · rename_i rendered hrendered
      split
      · exact hend _ _ _ short_none
      · rename_i reason hreason
        exact hend _ _ _ (short_some (short_observe _ _ _ reason hreason))
      · rename_i s hs
        obtain ⟨t', heq, hcompleted⟩ := complete_spec hopen hs state
        exact ⟨t', heq, Or.inr ⟨rendered, state, hcompleted⟩⟩
  · exact hend _ _ _ short_none

end Sidecar

end Tensorplate
