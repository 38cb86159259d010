import Tensorplate.Lib.Grouped
import Tensorplate.Sidecar.Reading

/-!
# The calls on one job

What the table's own calls make of it: the message that is written, the
job that is released, and the lane it leaves. No message of a job that is
still open is refused.
-/

namespace Tensorplate

namespace Sidecar

open Lib

variable {σ : Type} {t t' : Table σ} {r q : Ref}

/-! ## Messages -/

/-- A job whose last message is still to come. -/
structure Open (job : Job) : Prop where
  valid : job.identity.Valid
  same : job.sequence.identity = job.identity
  terminal : job.sequence.terminal = false
  released : job.sequence.released = false

/-- The sequence behind an event that it accepts. -/
def JobEventSequence.after (s : JobEventSequence) (totals : Totals) : JobEvent → JobEventSequence
  | .accepted => { s with observedAny := true, accepted := true, released := false }
  | .completed _ =>
    { s with observedAny := true, terminal := true, released := false, totals := totals }
  | .failed _ => { s with observedAny := true, terminal := true, released := false }
  | .cancelAcknowledged =>
    { s with observedAny := true, cancelAcknowledged := true, released := false }
  | .released => { s with observedAny := true, released := true }

theorem observe_accepted {s : JobEventSequence} (hr : s.released = false)
    (ht : s.terminal = false) (ho : s.observedAny = false) :
    s.observe s.identity .accepted = .ok (s.after s.totals .accepted) := by
  simp [JobEventSequence.observe, JobEventSequence.totalsAfter, JobEventSequence.after, require,
    hr, ht, ho, bind, Except.bind, pure, Except.pure]

theorem observe_failed {s : JobEventSequence} (hr : s.released = false) (ht : s.terminal = false)
    (error : ErrorObject) :
    s.observe s.identity (.failed error) = .ok (s.after s.totals (.failed error)) := by
  simp [JobEventSequence.observe, JobEventSequence.totalsAfter, JobEventSequence.after, require,
    hr, ht, bind, Except.bind, pure, Except.pure]

theorem observe_cancelAcknowledged {s : JobEventSequence} (hr : s.released = false)
    (ht : s.terminal = false) (hc : s.cancelRequested = true)
    (ha : s.cancelAcknowledged = false) :
    s.observe s.identity .cancelAcknowledged = .ok (s.after s.totals .cancelAcknowledged) := by
  simp [JobEventSequence.observe, JobEventSequence.totalsAfter, JobEventSequence.after, require,
    hr, ht, hc, ha, bind, Except.bind, pure, Except.pure]

theorem observe_released {s : JobEventSequence} (hr : s.released = false)
    (ht : s.terminal = true) :
    s.observe s.identity .released = .ok (s.after s.totals .released) := by
  simp [JobEventSequence.observe, JobEventSequence.totalsAfter, JobEventSequence.after, require,
    hr, ht, bind, Except.bind, pure, Except.pure]

/-- A completion that is accepted ends the stream. -/
theorem observe_completed {s s' : JobEventSequence} {identity : JobIdentity} {rendered : Rendered}
    (h : s.observe identity (.completed rendered) = .ok s') :
    ∃ totals, s' = s.after totals (.completed rendered) := by
  unfold JobEventSequence.observe at h
  simp only [bind_eq_ok] at h
  obtain ⟨_, -, _, -, _, -, totals, -, heq⟩ := h
  obtain rfl := Except.ok.inj heq
  refine ⟨totals, ?_⟩
  simp [JobEventSequence.after]

theorem short_observe (s : JobEventSequence) (identity : JobIdentity) (event : JobEvent) :
    Short (s.observe identity event) := by
  unfold JobEventSequence.observe
  refine (short_require (by decide)).bind fun _ => ?_
  refine (short_require (by decide)).bind fun _ => ?_
  refine (short_require (by decide)).bind fun _ => ?_
  refine Short.bind ?_ fun _ => short_ok _
  unfold JobEventSequence.totalsAfter
  cases event with
  | accepted => exact (short_require (by decide)).bind fun _ => short_ok _
  | failed error => exact short_ok _
  | cancelAcknowledged =>
    refine (short_require (by decide)).bind fun _ => ?_
    exact (short_require (by decide)).bind fun _ => short_ok _
  | released => exact (short_require (by decide)).bind fun _ => short_ok _
  | completed result =>
    unfold JobEventSequence.withResult
    refine (short_require (by decide)).bind fun _ => ?_
    refine (short_require (by decide)).bind fun _ => ?_
    refine (short_require (by decide)).bind fun _ => ?_
    split
    · exact (short_require (by decide)).bind fun _ => short_ok _
    · exact short_ok _

/-- The fixed message of a code and a short context make an error object. -/
theorem errorObject_fixed (code : ErrorCode) {context : Option String}
    (h : ∀ text ∈ context, utf8Size text ≤ limitErrorTextMaxBytes) :
    errorObject code code.message context = .ok ⟨code, code.message, context⟩ := by
  have hfixed : utf8Size code.message ≤ limitErrorTextMaxBytes := by
    cases code <;> decide
  have hcontext : utf8Size (context.getD "") ≤ limitErrorTextMaxBytes := by
    cases context with
    | none => decide
    | some text => exact h text rfl
  unfold errorObject require
  rw [if_pos (decide_eq_true (max_le hfixed hcontext))]
  rfl

/-- **The error of a job that ends is never refused.** -/
theorem endError_ok (code : ErrorCode) {context : Option String}
    (h : ∀ text ∈ context, utf8Size text ≤ limitErrorTextMaxBytes) (message : Option String) :
    ∃ error, Table.endError code context message = .ok error := by
  unfold Table.endError
  dsimp only
  split
  · exact ⟨_, rfl⟩
  · exact ⟨_, errorObject_fixed code h⟩
  · rename_i heq
    unfold errorObject at heq
    rcases bind_eq_error.1 heq with hr | ⟨_, -, hp⟩
    · unfold require at hr
      split_ifs at hr
      cases hr
    · cases hp

/-! ## What a call leaves alone -/

/-- The fields that no call on a job touches. -/
structure Steady (t t' : Table σ) : Prop where
  running : t'.running = t.running
  vadRunning : t'.vadRunning = t.vadRunning
  backend : t'.backend = t.backend
  classes : t'.classes = t.classes
  closing : t'.closing = t.closing
  next : t'.next = t.next

theorem Steady.refl (t : Table σ) : Steady t t := ⟨rfl, rfl, rfl, rfl, rfl, rfl⟩

theorem Steady.trans {t'' : Table σ} (h : Steady t t') (h' : Steady t' t'') : Steady t t'' :=
  ⟨h'.running.trans h.running, h'.vadRunning.trans h.vadRunning, h'.backend.trans h.backend,
    h'.classes.trans h.classes, h'.closing.trans h.closing, h'.next.trans h.next⟩

/-- The job apart from its mark to start from reset. -/
def Job.core (job : Job) : Job := { job with fromReset := false }

/-- The two jobs differ at most in that mark. -/
theorem core_eq {a b : Job} (h : a.core = b.core) :
    a.identity = b.identity ∧ a.sequence = b.sequence ∧ a.request = b.request ∧
      a.backend = b.backend ∧ a.cancelled = b.cancelled ∧ a.vad = b.vad := by
  unfold Job.core at h
  simp only [Job.mk.injEq] at h
  exact ⟨h.1, h.2.1, h.2.2.1, h.2.2.2.1, h.2.2.2.2.1, h.2.2.2.2.2.1⟩

theorem core_session {a b : Job} (h : a.core = b.core) : a.session = b.session := by
  unfold Job.session
  rw [(core_eq h).1]

theorem Open.of_core {a b : Job} (h : Open a) (hcore : b.core = a.core) : Open b := by
  obtain ⟨hi, hs, -⟩ := core_eq hcore
  refine ⟨?_, ?_, ?_, ?_⟩
  · rw [hi]
    exact h.valid
  · rw [hi, hs]
    exact h.same
  · rw [hs]
    exact h.terminal
  · rw [hs]
    exact h.released

/-- What a message that is accepted leaves. -/
structure Emitted (t t' : Table σ) (r : Ref) (event : JobEvent) (s : JobEventSequence) : Prop
    extends Steady t t' where
  lane : t'.lane = t.lane
  vadLane : t'.vadLane = t.vadLane
  jobs : t'.jobs = t.jobs
  releasing : t'.releasing = t.releasing
  vadSessions : t'.vadSessions = t.vadSessions
  others : ∀ q, q ≠ r → t'.objects q = t.objects q
  object : t'.objects r = { t.objects r with sequence := s }
  log : t'.log = t.log ++ [.sent (.event r (t.objects r).identity event)]

theorem emit_spec {event : JobEvent} {s : JobEventSequence}
    (hvalid : (t.objects r).identity.Valid)
    (hs : (t.objects r).sequence.observe (t.objects r).identity event = .ok s) :
    ∃ t', t.emit r event = .ok t' ∧ Emitted t t' r event s := by
  refine ⟨(t.setJob r { t.objects r with sequence := s }).mark
    (.sent (.event r (t.objects r).identity event)), ?_, ?_⟩
  · unfold Table.emit
    simp only [checkIdentity_of_valid hvalid, hs, bind, Except.bind]
    rfl
  · refine ⟨⟨rfl, rfl, rfl, rfl, rfl, rfl⟩, rfl, rfl, rfl, rfl, rfl, fun q hq => ?_, ?_, rfl⟩
    · exact if_neg hq
    · exact if_pos rfl

/-! ## Releases -/

/-- The session is being released, and no job of it is left. -/
def Settles (t : Table σ) (session : Session) : Prop :=
  t.releasing session = true ∧ ∀ q ∈ t.jobs, (t.objects q).session ≠ session

/-- What `settle` leaves. -/
structure Settled (t t' : Table σ) (session : Session) : Prop extends Steady t t' where
  lane : t'.lane = t.lane
  vadLane : t'.vadLane = t.vadLane
  jobs : t'.jobs = t.jobs
  objects : t'.objects = t.objects
  settled : Settles t session →
    t'.releasing = (fun s => if s = session then false else t.releasing s) ∧
    t'.vadSessions = (fun s => if s = session then none else t.vadSessions s) ∧
    t'.log = t.log ++ [.sent (.sessionReleased session)]
  unsettled : ¬ Settles t session →
    t'.releasing = t.releasing ∧ t'.vadSessions = t.vadSessions ∧ t'.log = t.log

theorem settle_spec (t : Table σ) (session : Session) : Settled t (t.settle session) session := by
  have hiff : (!t.releasing session || t.jobs.any fun q => (t.objects q).session = session) = true ↔
      ¬ Settles t session := by
    unfold Settles
    simp only [Bool.or_eq_true, Bool.not_eq_true', List.any_eq_true, decide_eq_true_eq]
    constructor
    · rintro (h | ⟨q, hq, hs⟩) ⟨hr, hall⟩
      · rw [h] at hr
        cases hr
      · exact hall q hq hs
    · intro h
      by_cases hr : t.releasing session = true
      · right
        by_contra hnone
        push Not at hnone
        exact h ⟨hr, hnone⟩
      · left
        rwa [Bool.not_eq_true] at hr
  unfold Table.settle
  by_cases h : Settles t session
  · rw [if_neg fun hif => hiff.1 hif h]
    exact ⟨⟨rfl, rfl, rfl, rfl, rfl, rfl⟩, rfl, rfl, rfl, rfl, fun _ => ⟨rfl, rfl, rfl⟩,
      fun hn => absurd h hn⟩
  · rw [if_pos (hiff.2 h)]
    exact ⟨⟨rfl, rfl, rfl, rfl, rfl, rfl⟩, rfl, rfl, rfl, rfl, fun hs => absurd hs h,
      fun _ => ⟨rfl, rfl, rfl⟩⟩

/-- The jobs without those of an identifier. -/
def Table.without (t : Table σ) (r : Ref) : List Ref :=
  t.jobs.filter fun q => (t.objects q).identity.jobId ≠ (t.objects r).identity.jobId

/-- The session of the job settles with its release. -/
def SettlesWithout (t : Table σ) (r : Ref) : Prop :=
  t.releasing (t.objects r).session = true ∧
    ∀ q ∈ t.without r, (t.objects q).session ≠ (t.objects r).session

/-- **What the end of a job leaves**: `held` are the states of the sessions
at its release, and `sent` is what was written on the way. -/
structure Dropped (t t' : Table σ) (r : Ref) (held : Session → Option (VadSession σ))
    (sent : List (Entry σ)) : Prop extends Steady t t' where
  jobs : t'.jobs = t.without r
  identity : (t'.objects r).identity = (t.objects r).identity
  vad : (t'.objects r).vad = (t.objects r).vad
  settled : SettlesWithout t r →
    t'.releasing = (fun s => if s = (t.objects r).session then false else t.releasing s) ∧
    t'.vadSessions = (fun s => if s = (t.objects r).session then none else held s) ∧
    t'.log = t.log ++ (sent ++ [.sent (.sessionReleased (t.objects r).session)])
  unsettled : ¬ SettlesWithout t r →
    t'.releasing = t.releasing ∧ t'.vadSessions = held ∧ t'.log = t.log ++ sent

/-- **What `release` leaves.** -/
structure Released (t t' : Table σ) (r : Ref) : Prop extends
    Dropped t t' r t.vadSessions [.sent (.event r (t.objects r).identity .released)] where
  lane : t'.lane = t.lane
  vadLane : t'.vadLane = t.vadLane
  others : ∀ q, q ≠ r → t'.objects q = t.objects q

theorem release_spec (hvalid : (t.objects r).identity.Valid)
    (hsame : (t.objects r).sequence.identity = (t.objects r).identity)
    (hterminal : (t.objects r).sequence.terminal = true)
    (hreleased : (t.objects r).sequence.released = false) :
    ∃ t', t.release r = .ok t' ∧ Released t t' r := by
  let t₁ : Table σ := ({ t with jobs := t.without r } : Table σ).setJob r
    { t.objects r with request := none, backend := none }
  have hobject : t₁.objects r = { t.objects r with request := none, backend := none } := if_pos rfl
  have hothers : ∀ q, q ≠ r → t₁.objects q = t.objects q := fun q hq => if_neg hq
  have hobserve : (t₁.objects r).sequence.observe (t₁.objects r).identity .released =
      .ok ((t.objects r).sequence.after (t.objects r).sequence.totals .released) := by
    rw [hobject]
    dsimp only
    rw [← hsame]
    exact observe_released hreleased hterminal
  obtain ⟨t₂, hemit, h₂⟩ := emit_spec (t := t₁) (r := r) (by rw [hobject]; exact hvalid) hobserve
  have h₃ := settle_spec t₂ (t.objects r).session
  refine ⟨t₂.settle (t.objects r).session, bind_of_ok hemit, ?_⟩
  have hidentity : ∀ q, (t₂.objects q).identity = (t.objects q).identity := by
    intro q
    by_cases hq : q = r
    · rw [hq, h₂.object, hobject]
    · rw [h₂.others q hq, hothers q hq]
  have hsettles : Settles t₂ (t.objects r).session ↔ SettlesWithout t r := by
    unfold Settles SettlesWithout Job.session
    rw [h₂.releasing, h₂.jobs]
    simp only [hidentity]
    exact Iff.rfl
  refine ⟨⟨?_, h₃.jobs.trans h₂.jobs, ?_, ?_, fun hs => ?_, fun hs => ?_⟩,
    h₃.lane.trans h₂.lane, h₃.vadLane.trans h₂.vadLane, fun q hq => ?_⟩
  · have h₁ : Steady t t₁ := ⟨rfl, rfl, rfl, rfl, rfl, rfl⟩
    exact (h₁.trans h₂.toSteady).trans h₃.toSteady
  · rw [h₃.objects]
    exact hidentity r
  · rw [h₃.objects, h₂.object, hobject]
  · obtain ⟨hr, hv, hl⟩ := h₃.settled (hsettles.2 hs)
    refine ⟨?_, ?_, ?_⟩
    · rw [hr, h₂.releasing]
      rfl
    · rw [hv, h₂.vadSessions]
      rfl
    · rw [hl, h₂.log, hobject, List.append_assoc]
      rfl
  · obtain ⟨hr, hv, hl⟩ := h₃.unsettled fun h => hs (hsettles.1 h)
    refine ⟨?_, ?_, ?_⟩
    · rw [hr, h₂.releasing]
      rfl
    · rw [hv, h₂.vadSessions]
      rfl
    · rw [hl, h₂.log, hobject]
      rfl
  · rw [h₃.objects, h₂.others q hq]
    exact hothers q hq

/-! ## Ends -/

theorem resetNext_steady (t : Table σ) (session : Session) (ending : Option Ref) :
    ∃ held, t.resetNext session ending = { t with vadSessions := held } := by
  unfold Table.resetNext Table.setSession
  split
  · exact ⟨_, rfl⟩
  · split_ifs
    · exact ⟨_, rfl⟩
    · exact ⟨_, rfl⟩

/-- **What is left of the lanes without a job**: at most a mark on another
job and the states of the sessions change besides. -/
structure Left (t t' : Table σ) (r : Ref) : Prop extends Steady t t' where
  lane : t'.lane =
    if (t.objects r).vad then t.lane else t.lane.eraseP fun work => work.ref? = some r
  vadLane : t'.vadLane = if (t.objects r).vad then t.vadLane.erase r else t.vadLane
  jobs : t'.jobs = t.jobs
  releasing : t'.releasing = t.releasing
  log : t'.log = t.log
  core : ∀ q, (t'.objects q).core = (t.objects q).core

theorem leaveLane_spec (t : Table σ) (r : Ref) : Left t (t.leaveLane r) r := by
  unfold Table.leaveLane
  by_cases hvad : (t.objects r).vad = true
  · rw [if_pos hvad]
    unfold Table.interrupt
    dsimp only
    split
    · rename_i following hfind
      refine ⟨⟨rfl, rfl, rfl, rfl, rfl, rfl⟩, (if_pos hvad).symm, (if_pos hvad).symm, rfl, rfl, rfl,
        fun q => ?_⟩
      unfold Table.setJob
      dsimp only
      split_ifs with hq
      · rw [hq]
        rfl
      · rfl
    · obtain ⟨held, heq⟩ := resetNext_steady { t with vadLane := t.vadLane.erase r }
        (t.objects r).session (some r)
      rw [heq]
      exact ⟨⟨rfl, rfl, rfl, rfl, rfl, rfl⟩, (if_pos hvad).symm, (if_pos hvad).symm, rfl, rfl, rfl,
        fun q => rfl⟩
  · rw [if_neg hvad]
    exact ⟨⟨rfl, rfl, rfl, rfl, rfl, rfl⟩, (if_neg hvad).symm, (if_neg hvad).symm, rfl, rfl, rfl,
      fun q => rfl⟩

/-- **What `endJob` leaves**: `left` is the table once the job has left its
lane. -/
structure Ended (t left t' : Table σ) (r : Ref) (error : ErrorObject) : Prop extends
    Dropped t t' r left.vadSessions
      [.sent (.event r (t.objects r).identity (.failed error)),
        .sent (.event r (t.objects r).identity .released)] where
  lane : t'.lane = left.lane
  vadLane : t'.vadLane = left.vadLane
  others : ∀ q, q ≠ r → t'.objects q = left.objects q

theorem without_congr (hjobs : t'.jobs = t.jobs)
    (hidentity : ∀ q, (t'.objects q).identity = (t.objects q).identity) :
    t'.without r = t.without r := by
  unfold Table.without
  simp only [hjobs, hidentity]

theorem settlesWithout_congr (hjobs : t'.jobs = t.jobs) (hreleasing : t'.releasing = t.releasing)
    (hidentity : ∀ q, (t'.objects q).identity = (t.objects q).identity) :
    SettlesWithout t' r ↔ SettlesWithout t r := by
  unfold SettlesWithout Job.session
  rw [without_congr hjobs hidentity, hreleasing]
  simp only [hidentity]

/-- **The end of an open job is never refused.** -/
theorem endJob_spec (hopen : Open (t.objects r)) {context : Option String}
    (hcontext : ∀ text ∈ context, utf8Size text ≤ limitErrorTextMaxBytes) (code : ErrorCode)
    (message : Option String) :
    ∃ t' error, t.endJob r code context message = .ok t' ∧ Ended t (t.leaveLane r) t' r error := by
  obtain ⟨error, herror⟩ := endError_ok code hcontext message
  have hleft := leaveLane_spec t r
  have hopen₁ := hopen.of_core (hleft.core r)
  have hidentity₁ : ∀ q, ((t.leaveLane r).objects q).identity = (t.objects q).identity :=
    fun q => (core_eq (hleft.core q)).1
  have hobserve : ((t.leaveLane r).objects r).sequence.observe ((t.leaveLane r).objects r).identity
      (.failed error) = .ok (((t.leaveLane r).objects r).sequence.after
        ((t.leaveLane r).objects r).sequence.totals (.failed error)) := by
    rw [← hopen₁.same]
    exact observe_failed hopen₁.released hopen₁.terminal error
  obtain ⟨t₂, hemit, h₂⟩ := emit_spec hopen₁.valid hobserve
  have hidentity₂ : ∀ q, (t₂.objects q).identity = (t.objects q).identity := by
    intro q
    by_cases hq : q = r
    · rw [hq, h₂.object]
      exact hidentity₁ r
    · rw [h₂.others q hq]
      exact hidentity₁ q
  have hvad₂ : (t₂.objects r).vad = (t.objects r).vad := by
    rw [h₂.object]
    exact (core_eq (hleft.core r)).2.2.2.2.2
  have hsequence : (t₂.objects r).sequence = ((t.leaveLane r).objects r).sequence.after
      ((t.leaveLane r).objects r).sequence.totals (.failed error) := by
    rw [h₂.object]
  obtain ⟨t₃, hrelease, h₃⟩ := release_spec (t := t₂) (r := r)
    (by rw [hidentity₂]; exact hopen.valid)
    (by
      rw [hsequence, hidentity₂, ← hidentity₁]
      exact hopen₁.same)
    (by rw [hsequence]; rfl) (by rw [hsequence]; rfl)
  refine ⟨t₃, error, ?_, ?_⟩
  · unfold Table.endJob
    dsimp only
    rw [bind_of_ok herror, bind_of_ok hemit]
    exact hrelease
  have hjobs₂ : t₂.jobs = t.jobs := h₂.jobs.trans hleft.jobs
  have hreleasing₂ : t₂.releasing = t.releasing := h₂.releasing.trans hleft.releasing
  have hsettles : SettlesWithout t₂ r ↔ SettlesWithout t r :=
    settlesWithout_congr hjobs₂ hreleasing₂ hidentity₂
  have hsession₂ : (t₂.objects r).session = (t.objects r).session := by
    unfold Job.session
    rw [hidentity₂]
  have hlog₂ : t₂.log = t.log ++ [.sent (.event r (t.objects r).identity (.failed error))] := by
    rw [h₂.log, hleft.log, hidentity₁]
  refine ⟨⟨(hleft.toSteady.trans h₂.toSteady).trans h₃.toSteady, ?_, ?_, ?_, fun hs => ?_,
    fun hs => ?_⟩, h₃.lane.trans h₂.lane, h₃.vadLane.trans h₂.vadLane, fun q hq => ?_⟩
  · rw [h₃.jobs]
    exact without_congr hjobs₂ hidentity₂
  · rw [h₃.identity, hidentity₂]
  · rw [h₃.vad, hvad₂]
  · obtain ⟨hr, hv, hl⟩ := h₃.settled (hsettles.2 hs)
    refine ⟨?_, ?_, ?_⟩
    · rw [hr, hsession₂, hreleasing₂]
    · rw [hv, hsession₂, h₂.vadSessions]
    · rw [hl, hlog₂, hidentity₂, hsession₂, List.append_assoc]
      rfl
  · obtain ⟨hr, hv, hl⟩ := h₃.unsettled fun h => hs (hsettles.1 h)
    refine ⟨?_, ?_, ?_⟩
    · rw [hr, hreleasing₂]
    · rw [hv, h₂.vadSessions]
    · rw [hl, hlog₂, hidentity₂, List.append_assoc]
      rfl
  · rw [h₃.others q hq, h₂.others q hq]

/-! ## Completions -/

/-- The states of the sessions with what the completion of the job leaves. -/
def Table.scoredSessions (t : Table σ) (r : Ref) (state : Option σ) :
    Session → Option (VadSession σ) :=
  match (t.objects r).vad, (t.objects r).request with
  | true, some request => fun s =>
    if s = (t.objects r).session then
      some { (t.vadSessions (t.objects r).session).getD {} with
        utteranceId := request.utteranceId, state := state }
    else t.vadSessions s
  | _, _ => t.vadSessions

/-- The mark of that completion. -/
def Table.scoredMark (t : Table σ) (r : Ref) (state : Option σ) : List (Entry σ) :=
  match (t.objects r).vad, (t.objects r).request with
  | true, some request => [.scored r (t.objects r).session request.utteranceId state]
  | _, _ => []

/-- **What `complete` leaves.** -/
structure Completed (t t' : Table σ) (r : Ref) (rendered : Rendered) (state : Option σ) : Prop
    extends Dropped t t' r (t.scoredSessions r state)
      (.sent (.event r (t.objects r).identity (.completed rendered)) ::
        (t.scoredMark r state ++ [.sent (.event r (t.objects r).identity .released)])) where
  lane : t'.lane = t.lane
  vadLane : t'.vadLane = t.vadLane
  others : ∀ q, q ≠ r → t'.objects q = t.objects q

/-- The part of `complete` that keeps the state. -/
def Table.score (t : Table σ) (r : Ref) (request : Option JobRequest) (state : Option σ) :
    Table σ :=
  match (t.objects r).vad, request with
  | true, some request =>
    (t.setSession (t.objects r).session
      (some { (t.vadSessions (t.objects r).session).getD {} with
        utteranceId := request.utteranceId, state := state })).mark
      (.scored r (t.objects r).session request.utteranceId state)
  | _, _ => t

theorem complete_eq (t : Table σ) (r : Ref) (rendered : Rendered) (state : Option σ) :
    t.complete r rendered state = (do
      let t₁ ← t.emit r (.completed rendered)
      (t₁.score r (t.objects r).request state).release r) := rfl

theorem score_spec (t : Table σ) (r : Ref) (state : Option σ) :
    t.score r (t.objects r).request state =
      { t with vadSessions := t.scoredSessions r state, log := t.log ++ t.scoredMark r state } := by
  unfold Table.score Table.scoredSessions Table.scoredMark
  split
  · rfl
  · rw [List.append_nil]

theorem scored_congr (hvad : (t'.objects r).vad = (t.objects r).vad)
    (hrequest : (t'.objects r).request = (t.objects r).request)
    (hidentity : (t'.objects r).identity = (t.objects r).identity)
    (hheld : t'.vadSessions = t.vadSessions) (state : Option σ) :
    t'.scoredSessions r state = t.scoredSessions r state ∧
      t'.scoredMark r state = t.scoredMark r state := by
  have hsession : (t'.objects r).session = (t.objects r).session := by
    unfold Job.session
    rw [hidentity]
  unfold Table.scoredSessions Table.scoredMark
  rw [hvad, hrequest, hsession, hheld]
  exact ⟨rfl, rfl⟩

/-- **A completion that is observed is never refused.** -/
theorem complete_spec (hopen : Open (t.objects r)) {rendered : Rendered} {s : JobEventSequence}
    (hs : (t.objects r).sequence.observe (t.objects r).identity (.completed rendered) = .ok s)
    (state : Option σ) :
    ∃ t', t.complete r rendered state = .ok t' ∧ Completed t t' r rendered state := by
  obtain ⟨t₁, hemit, h₁⟩ := emit_spec hopen.valid hs
  obtain ⟨totals, rfl⟩ := observe_completed hs
  have hidentity₁ : ∀ q, (t₁.objects q).identity = (t.objects q).identity := by
    intro q
    by_cases hq : q = r
    · rw [hq, h₁.object]
    · rw [h₁.others q hq]
  have hrequest₁ : (t₁.objects r).request = (t.objects r).request := by
    rw [h₁.object]
  have hvad₁ : (t₁.objects r).vad = (t.objects r).vad := by
    rw [h₁.object]
  obtain ⟨hheld, hmark⟩ := scored_congr hvad₁ hrequest₁ (hidentity₁ r) h₁.vadSessions state
  have hscore := score_spec t₁ r state
  rw [hrequest₁, hheld, hmark] at hscore
  let t₂ : Table σ := { t₁ with
    vadSessions := t.scoredSessions r state, log := t₁.log ++ t.scoredMark r state }
  have hsequence : (t₁.objects r).sequence =
      (t.objects r).sequence.after totals (.completed rendered) := by
    rw [h₁.object]
  obtain ⟨t₃, hrelease, h₃⟩ := release_spec (t := t₂) (r := r)
    (by
      change (t₁.objects r).identity.Valid
      rw [hidentity₁]
      exact hopen.valid)
    (by
      change (t₁.objects r).sequence.identity = (t₁.objects r).identity
      rw [hsequence, hidentity₁]
      exact hopen.same)
    (by
      change (t₁.objects r).sequence.terminal = true
      rw [hsequence]
      rfl)
    (by
      change (t₁.objects r).sequence.released = false
      rw [hsequence]
      rfl)
  refine ⟨t₃, ?_, ?_⟩
  · rw [complete_eq, bind_of_ok hemit, hscore]
    exact hrelease
  have hidentity₂ : ∀ q, (t₂.objects q).identity = (t.objects q).identity := hidentity₁
  have hsettles : SettlesWithout t₂ r ↔ SettlesWithout t r :=
    settlesWithout_congr h₁.jobs h₁.releasing hidentity₂
  have hsession₂ : (t₂.objects r).session = (t.objects r).session := by
    unfold Job.session
    rw [hidentity₂]
  have hlog₂ : t₂.log = t.log ++ (.sent (.event r (t.objects r).identity (.completed rendered)) ::
      t.scoredMark r state) := by
    change t₁.log ++ t.scoredMark r state = _
    rw [h₁.log, List.append_assoc]
    rfl
  have hsteady : Steady t t₂ := ⟨h₁.running, h₁.vadRunning, h₁.backend, h₁.classes, h₁.closing,
    h₁.next⟩
  refine ⟨⟨hsteady.trans h₃.toSteady, ?_, ?_, ?_, fun hs => ?_, fun hs => ?_⟩,
    h₃.lane.trans h₁.lane, h₃.vadLane.trans h₁.vadLane, fun q hq => ?_⟩
  · rw [h₃.jobs]
    exact without_congr h₁.jobs hidentity₂
  · rw [h₃.identity, hidentity₂]
  · rw [h₃.vad]
    exact hvad₁
  · obtain ⟨hr, hv, hl⟩ := h₃.settled (hsettles.2 hs)
    refine ⟨?_, ?_, ?_⟩
    · have hreleasing₂ : t₂.releasing = t.releasing := h₁.releasing
      rw [hr, hsession₂, hreleasing₂]
    · rw [hv, hsession₂]
    · rw [hl, hlog₂, hidentity₂, hsession₂]
      simp
  · obtain ⟨hr, hv, hl⟩ := h₃.unsettled fun h => hs (hsettles.1 h)
    refine ⟨hr.trans h₁.releasing, hv, ?_⟩
    rw [hl, hlog₂, hidentity₂]
    simp
  · rw [h₃.others q hq]
    exact h₁.others q hq

/-! ## Cancels -/

/-- The job behind the acknowledgement of its cancel. -/
def Job.acknowledged (job : Job) : Job :=
  { job with
    cancelled := true
    sequence := job.sequence.noteCancelRequested.after job.sequence.totals .cancelAcknowledged }

/-- **What the acknowledgement leaves.** -/
structure Acknowledged (t t' : Table σ) (r : Ref) : Prop extends Steady t t' where
  lane : t'.lane = t.lane
  vadLane : t'.vadLane = t.vadLane
  jobs : t'.jobs = t.jobs
  releasing : t'.releasing = t.releasing
  vadSessions : t'.vadSessions = t.vadSessions
  others : ∀ q, q ≠ r → t'.objects q = t.objects q
  object : t'.objects r = (t.objects r).acknowledged
  log : t'.log = t.log ++ [.sent (.event r (t.objects r).identity .cancelAcknowledged)]

/-- The part of `cancel` that acknowledges it. -/
def Table.acknowledge (t : Table σ) (r : Ref) : Except Refusal (Table σ) :=
  (t.setJob r { t.objects r with
    cancelled := true, sequence := (t.objects r).sequence.noteCancelRequested }).emit r
    .cancelAcknowledged

theorem cancel_eq (t : Table σ) (r : Ref) (h : (t.objects r).cancelled = false) :
    t.cancel r = (do
      let t₁ ← t.acknowledge r
      if t₁.running ≠ some r && t₁.vadRunning ≠ some r then t₁.endJob r .cancelled none none
      else pure t₁) := by
  unfold Table.cancel
  dsimp only
  rw [if_neg (by rw [h]; exact Bool.false_ne_true)]
  rfl

theorem acknowledge_spec (hopen : Open (t.objects r))
    (hack : (t.objects r).sequence.cancelAcknowledged = false) :
    ∃ t', t.acknowledge r = .ok t' ∧ Acknowledged t t' r := by
  let t₁ : Table σ := t.setJob r { t.objects r with
    cancelled := true, sequence := (t.objects r).sequence.noteCancelRequested }
  have hobject : t₁.objects r = { t.objects r with
      cancelled := true, sequence := (t.objects r).sequence.noteCancelRequested } := if_pos rfl
  have hobserve : (t₁.objects r).sequence.observe (t₁.objects r).identity .cancelAcknowledged =
      .ok ((t.objects r).sequence.noteCancelRequested.after (t.objects r).sequence.totals
        .cancelAcknowledged) := by
    rw [hobject]
    dsimp only
    rw [← hopen.same]
    exact observe_cancelAcknowledged (s := (t.objects r).sequence.noteCancelRequested)
      hopen.released hopen.terminal rfl hack
  obtain ⟨t₂, hemit, h₂⟩ := emit_spec (t := t₁) (r := r) (by rw [hobject]; exact hopen.valid)
    hobserve
  refine ⟨t₂, hemit, ⟨h₂.toSteady.running, h₂.vadRunning, h₂.backend, h₂.classes, h₂.closing,
    h₂.next⟩, h₂.lane, h₂.vadLane, h₂.jobs, h₂.releasing, h₂.vadSessions, fun q hq => ?_, ?_, ?_⟩
  · rw [h₂.others q hq]
    exact if_neg hq
  · rw [h₂.object, hobject]
    rfl
  · rw [h₂.log, hobject]
    rfl

/-! ## Admissions -/

/-- A job that no message was written of. -/
structure Unsent (job : Job) : Prop extends Open job where
  observedAny : job.sequence.observedAny = false
  cancelRequested : job.sequence.cancelRequested = false
  cancelAcknowledged : job.sequence.cancelAcknowledged = false
  cancelled : job.cancelled = false
  fromReset : job.fromReset = false

theorem makeJob_unsent {header : Header} {identity : JobIdentity} (backend : Backend)
    (hvalid : identity.Valid) {request : Except String JobRequest}
    (hrequest : ∀ r, request = .ok r → r.identity = identity) :
    Unsent (Table.makeJob header backend identity request) := by
  cases request with
  | error reason => exact ⟨⟨hvalid, rfl, rfl, rfl⟩, rfl, rfl, rfl, rfl, rfl⟩
  | ok request => exact ⟨⟨hvalid, hrequest request rfl, rfl, rfl⟩, rfl, rfl, rfl, rfl, rfl⟩

/-- The entry of the session of a VAD job. -/
def Table.entryOf (t : Table σ) (r : Ref) : Option (VadSession σ) :=
  if (t.objects r).vad then t.vadSessions (t.objects r).session else none

/-- The job behind its admission. -/
def Table.admitted (t : Table σ) (r : Ref) : Job :=
  { t.objects r with
    sequence := (t.objects r).sequence.after (t.objects r).sequence.totals .accepted
    fromReset := ((t.entryOf r).map VadSession.resetNext).getD false }

/-- **What `accept` leaves.** -/
structure Accepted (t t' : Table σ) (r : Ref) : Prop extends Steady t t' where
  lane : t'.lane = if (t.objects r).vad then t.lane else t.lane ++ [.job r]
  vadLane : t'.vadLane = if (t.objects r).vad then t.vadLane ++ [r] else t.vadLane
  jobs : t'.jobs = t.jobs ++ [r]
  releasing : t'.releasing = t.releasing
  vadSessions : t'.vadSessions = fun s =>
    if (t.objects r).vad = true ∧ s = (t.objects r).session then
      (t.vadSessions s).map fun held => { held with resetNext := false }
    else t.vadSessions s
  others : ∀ q, q ≠ r → t'.objects q = t.objects q
  object : t'.objects r = t.admitted r
  log : t'.log = t.log ++ [.sent (.event r (t.objects r).identity .accepted)]

/-- The part of `accept` before the message. -/
def Table.enter (t : Table σ) (r : Ref) : Table σ :=
  match t.entryOf r with
  | some held =>
    (({ t with jobs := t.jobs ++ [r] } : Table σ).setJob r
      { t.objects r with fromReset := held.resetNext }).setSession (t.objects r).session
      (some { held with resetNext := false })
  | none => { t with jobs := t.jobs ++ [r] }

theorem accept_eq (t : Table σ) (r : Ref) :
    t.accept r = (do
      let t₁ ← (t.enter r).emit r .accepted
      pure (if (t.objects r).vad then { t₁ with vadLane := t₁.vadLane ++ [r] }
        else { t₁ with lane := t₁.lane ++ [.job r] })) := rfl

theorem enter_vadSessions (t : Table σ) (r : Ref) :
    (t.enter r).vadSessions = fun s =>
      if (t.objects r).vad = true ∧ s = (t.objects r).session then
        (t.vadSessions s).map fun held => { held with resetNext := false }
      else t.vadSessions s := by
  funext s
  unfold Table.enter Table.entryOf
  by_cases hvad : (t.objects r).vad = true
  · rw [if_pos hvad]
    by_cases hs : s = (t.objects r).session
    · rw [if_pos ⟨hvad, hs⟩, hs]
      split
      · rename_i held heq
        rw [heq]
        exact if_pos rfl
      · rename_i heq
        rw [heq]
        rfl
    · rw [if_neg fun h => hs h.2]
      split
      · exact if_neg hs
      · rfl
  · rw [if_neg hvad, if_neg fun h => hvad h.1]

theorem enter_object (h : (t.objects r).fromReset = false) : (t.enter r).objects r =
    { t.objects r with fromReset := ((t.entryOf r).map VadSession.resetNext).getD false } := by
  unfold Table.enter
  split
  · rename_i held heq
    rw [heq]
    exact if_pos rfl
  · rename_i heq
    rw [heq]
    change t.objects r = _
    rw [Option.map_none, Option.getD_none, ← h]

theorem enter_frame (t : Table σ) (r : Ref) : Steady t (t.enter r) ∧
    (t.enter r).lane = t.lane ∧ (t.enter r).vadLane = t.vadLane ∧
    (t.enter r).jobs = t.jobs ++ [r] ∧ (t.enter r).releasing = t.releasing ∧
    (t.enter r).log = t.log ∧ ∀ q, q ≠ r → (t.enter r).objects q = t.objects q := by
  unfold Table.enter
  split
  · exact ⟨⟨rfl, rfl, rfl, rfl, rfl, rfl⟩, rfl, rfl, rfl, rfl, rfl, fun q hq => if_neg hq⟩
  · exact ⟨⟨rfl, rfl, rfl, rfl, rfl, rfl⟩, rfl, rfl, rfl, rfl, rfl, fun q _ => rfl⟩

/-- **An admission is never refused.** -/
theorem accept_spec (hunsent : Unsent (t.objects r)) :
    ∃ t', t.accept r = .ok t' ∧ Accepted t t' r := by
  obtain ⟨hsteady, hlane, hvadLane, hjobs, hreleasing, hlog, hothers⟩ := enter_frame t r
  have hobject := enter_object (t := t) hunsent.fromReset
  have hobserve : ((t.enter r).objects r).sequence.observe ((t.enter r).objects r).identity
      .accepted = .ok ((t.objects r).sequence.after (t.objects r).sequence.totals .accepted) := by
    rw [hobject]
    dsimp only
    rw [← hunsent.same]
    exact observe_accepted hunsent.released hunsent.terminal hunsent.observedAny
  obtain ⟨t₁, hemit, h₁⟩ := emit_spec (t := t.enter r) (r := r)
    (by rw [hobject]; exact hunsent.valid) hobserve
  have hobject₁ : t₁.objects r = t.admitted r := by
    rw [h₁.object, hobject]
    rfl
  have hlog₁ : t₁.log = t.log ++ [.sent (.event r (t.objects r).identity .accepted)] := by
    rw [h₁.log, hlog, hobject]
  have hothers₁ : ∀ q, q ≠ r → t₁.objects q = t.objects q :=
    fun q hq => (h₁.others q hq).trans (hothers q hq)
  refine ⟨_, by rw [accept_eq, bind_of_ok hemit]; rfl, ?_⟩
  by_cases hvad : (t.objects r).vad = true
  · rw [if_pos hvad]
    refine ⟨?_, ?_, ?_, h₁.jobs.trans hjobs, h₁.releasing.trans hreleasing,
      h₁.vadSessions.trans (enter_vadSessions t r), hothers₁, hobject₁, hlog₁⟩
    · have h := hsteady.trans h₁.toSteady
      exact ⟨h.running, h.vadRunning, h.backend, h.classes, h.closing, h.next⟩
    · rw [if_pos hvad]
      exact h₁.lane.trans hlane
    · rw [if_pos hvad]
      exact congrArg (· ++ [r]) (h₁.vadLane.trans hvadLane)
  · rw [if_neg hvad]
    refine ⟨?_, ?_, ?_, h₁.jobs.trans hjobs, h₁.releasing.trans hreleasing,
      h₁.vadSessions.trans (enter_vadSessions t r), hothers₁, hobject₁, hlog₁⟩
    · have h := hsteady.trans h₁.toSteady
      exact ⟨h.running, h.vadRunning, h.backend, h.classes, h.closing, h.next⟩
    · rw [if_neg hvad]
      exact congrArg (· ++ [.job r]) (h₁.lane.trans hlane)
    · rw [if_neg hvad]
      exact h₁.vadLane.trans hvadLane

end Sidecar

end Tensorplate
