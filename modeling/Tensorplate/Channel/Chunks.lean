import Tensorplate.Channel.Sink

/-!
# The buffers of chunks

`decode_sidecar_message` takes a buffer for the PCM of a chunk before the
channel knows what becomes of the message. Each buffer goes to the sink in
one event, or the reader gives it back: over every run, detached sinks
among them, the buffers given back and those of the events decided are the
buffers taken, each once.
-/

namespace Tensorplate

namespace Channel

open Lib

/-- The buffer a call holds. -/
def Delivery.buffer : Delivery → Option ℕ
  | .event _ e => e.buffer
  | .sessionReleased .. => none

/-- The buffers the calls hold. -/
def held (D : List Delivery) : List ℕ := D.filterMap Delivery.buffer

/-- The buffers that were taken. -/
def allocated (H : List Happening) : List ℕ :=
  H.filterMap fun
    | .allocated b => some b
    | _ => none

/-- The buffers that were given back. -/
def freed (H : List Happening) : List ℕ :=
  H.filterMap fun
    | .freed b => some b
    | _ => none

section

variable {c : JobChannel} {k : ℕ} {job : Job}

@[simp] theorem held_nil : held [] = [] := rfl

theorem held_append (D D' : List Delivery) : held (D ++ D') = held D ++ held D' :=
  List.filterMap_append

theorem held_cons (d : Delivery) (D : List Delivery) :
    held (d :: D) = d.buffer.toList ++ held D := by
  unfold held
  rw [List.filterMap_cons]
  rcases d.buffer with - | b
  · rfl
  · rfl

/-! ## Calls without a buffer -/

theorem told_eq_some {event : Except Error JobEvent} {e : JobEvent} {q : JobEventSequence}
    (h : job.told event = some (e, q)) : event = .ok e := by
  unfold Job.told at h
  split at h
  · exact absurd h (by simp)
  · split at h
    · exact absurd h (by simp)
    · obtain ⟨rfl, -⟩ := Prod.mk.inj (Option.some.inj h)
      rfl

theorem buffer_failed {identity : JobIdentity} {error : Error} {e : JobEvent}
    (h : JobEvent.failed identity error = .ok e) : e.buffer = none := by
  unfold JobEvent.failed at h
  simp only [bind, Except.bind] at h
  split at h
  · exact absurd h (by simp)
  · by_cases hlong : (!JobEvent.fits error.message || !error.context.all JobEvent.fits) = true
    · rw [if_pos hlong] at h
      exact absurd h (by simp [JobRequest.invalid])
    · rw [if_neg hlong] at h
      obtain rfl := Except.ok.inj h
      rfl

theorem buffer_released {identity : JobIdentity} {e : JobEvent}
    (h : JobEvent.released identity = .ok e) : e.buffer = none := by
  unfold JobEvent.released at h
  simp only [bind, Except.bind] at h
  split at h
  · exact absurd h (by simp)
  · obtain rfl := Except.ok.inj h
    rfl

theorem held_settle (c : JobChannel) (key : ℕ) : held (c.settleLocked key).2 = [] := by
  unfold JobChannel.settleLocked
  split
  · rfl
  · split_ifs
    · rfl
    · rfl

theorem held_forget (c : JobChannel) (k : ℕ) (job : Job) : held (c.forgetLocked k job).2 = [] :=
  held_settle _ _

theorem held_fail (c : JobChannel) (k : ℕ) (job : Job) (error : Error) :
    held (c.failLocked k job error).2 = [] := by
  unfold JobChannel.failLocked
  split
  · rfl
  · rename_i e q htold
    dsimp only
    rw [held_cons]
    show e.buffer.toList ++ [] = []
    rw [buffer_failed (told_eq_some htold)]
    rfl

theorem held_release (c : JobChannel) (k : ℕ) (job : Job) :
    held (c.releaseLocked k job).2 = [] := by
  unfold JobChannel.releaseLocked
  split
  · exact held_forget _ _ _
  · rename_i e q htold
    dsimp only
    rw [held_cons, held_forget]
    show e.buffer.toList ++ [] = []
    rw [buffer_released (told_eq_some htold)]
    rfl

theorem held_failJobs (error : Error) (jobs : List (ℕ × Job)) :
    ∀ c : JobChannel, held (c.failJobs error jobs).2 = [] := by
  induction jobs with
  | nil => exact fun c => rfl
  | cons p rest ih =>
    intro c
    obtain ⟨k, job⟩ := p
    unfold JobChannel.failJobs
    dsimp only
    rw [held_append, held_fail, ih]
    rfl

theorem held_end (c : JobChannel) (error : Error) : held (c.endLocked error).2 = [] :=
  held_failJobs _ _ _

theorem held_stop (c : JobChannel) : held c.stopLocked.2 = [] := by
  have hjobs : ∀ (jobs : List (ℕ × Job)) (c : JobChannel), held (c.releaseJobs jobs).2 = [] := by
    intro jobs
    induction jobs with
    | nil => exact fun c => rfl
    | cons p rest ih =>
      intro c
      obtain ⟨k, job⟩ := p
      unfold JobChannel.releaseJobs
      dsimp only
      rw [held_append, held_release, ih]
      rfl
  have hsessions : ∀ (pending : List (ℕ × PendingRelease)) (c : JobChannel),
      held (c.acknowledgeAll pending).2 = [] := by
    intro pending
    induction pending with
    | nil => exact fun c => rfl
    | cons p rest ih =>
      intro c
      obtain ⟨key, p⟩ := p
      unfold JobChannel.acknowledgeAll
      dsimp only
      rw [held_append, ih]
      rfl
  unfold JobChannel.stopLocked
  dsimp only
  rw [held_append, hjobs, hsessions]
  rfl

/-! ## What a message's event holds -/

theorem buffer_unloaded (c : JobChannel) (e : JobEvent) :
    (c.unloadedLocked e).buffer = e.buffer := by
  unfold JobChannel.unloadedLocked
  split_ifs
  · rfl
  split
  · rfl
  · rename_i error herror
    -- Only a `failed` event is replaced, by another.
    have hnone : e.buffer = none := by
      unfold JobEvent.error at herror
      split at herror
      · rename_i hbody
        unfold JobEvent.buffer JobEvent.result
        rw [hbody]
        rfl
      · exact absurd herror (by simp)
    split_ifs
    · split
      · rename_i unloaded hfailed
        rw [buffer_failed hfailed, hnone]
      · rfl
    · rfl

/-- What the calls decided on a message hold: the buffer of its own event
where the sink receives that, and none otherwise. -/
def Holds (buffer : Option ℕ) (decided : JobChannel × List Delivery × Bool) : Prop :=
  (decided.2.2 = true → held decided.2.1 = buffer.toList) ∧
    (decided.2.2 = false → held decided.2.1 = [])

/-- **`admit_locked`** says whether the sink receives the event. -/
theorem holds_admit (hatt : c.sinkDetached = false) (e : JobEvent) :
    Holds e.buffer (c.admitLocked e) := by
  rw [← buffer_unloaded c e]
  unfold JobChannel.admitLocked
  dsimp only
  generalize c.unloadedLocked e = event
  cases hj : c.jobs[event.identity.jobId]? with
  | none => exact ⟨nofun, fun _ => rfl⟩
  | some job =>
    dsimp only
    cases ho : job.sequence.observe event with
    | error refusedWith =>
      dsimp only
      split_ifs
      · exact ⟨nofun, fun _ => rfl⟩
      · exact ⟨nofun, fun _ => held_fail _ _ _ _⟩
      · refine ⟨nofun, fun _ => ?_⟩
        dsimp only
        rw [held_append, held_fail, held_release]
        rfl
    | ok q =>
      dsimp only
      rw [hatt]
      split_ifs
      · refine ⟨fun _ => ?_, nofun⟩
        dsimp only
        rw [held_cons, held_forget]
        exact List.append_nil _
      · refine ⟨fun _ => ?_, nofun⟩
        dsimp only
        rw [held_cons]
        exact List.append_nil _

theorem not_delivered_of_detached (hdet : c.sinkDetached = true) (e : JobEvent) :
    (c.admitLocked e).2.2 = false := by
  unfold JobChannel.admitLocked
  dsimp only
  generalize c.unloadedLocked e = event
  cases c.jobs[event.identity.jobId]? with
  | none => rfl
  | some job =>
    dsimp only
    cases job.sequence.observe event with
    | error refusedWith =>
      dsimp only
      split_ifs
      · rfl
      · rfl
      · rfl
    | ok q =>
      dsimp only
      rw [hdet]
      split_ifs
      · rfl
      · rfl

/-- The buffer of a message's own event. -/
def SidecarJobMessage.buffer : SidecarJobMessage → Option ℕ
  | .event e => e.buffer
  | _ => none

theorem holds_route (hatt : c.sinkDetached = false) (message : SidecarJobMessage)
    (frame : SidecarFrame) (health : Except Error Unit) :
    Holds message.buffer (c.routeLocked message frame health) := by
  cases message with
  | event e => exact holds_admit hatt e
  | fault jobId error session =>
    refine ⟨nofun, fun _ => ?_⟩
    show held (c.faultLocked jobId error session).2 = []
    unfold JobChannel.faultLocked
    dsimp only
    cases c.jobs[jobId]? with
    | none => rfl
    | some job =>
      dsimp only
      by_cases ht : job.sequence.terminal = true
      · rw [if_pos ht]
        rfl
      · rw [if_neg ht]
        exact held_fail _ _ _ _
  | sessionReleased key generation =>
    refine ⟨nofun, fun _ => ?_⟩
    show held (c.releasedLocked key generation).2 = []
    unfold JobChannel.releasedLocked
    cases c.releasing[key]? with
    | none => rfl
    | some pending =>
      dsimp only
      split_ifs
      · rfl
      · exact held_settle _ _
  | refused messageId error =>
    refine ⟨nofun, fun _ => ?_⟩
    show held (c.refuseLocked messageId error frame).2 = []
    unfold JobChannel.refuseLocked
    cases c.messageJobs.lookup messageId with
    | none =>
      dsimp only
      split_ifs
      · rfl
      · rfl
    | some jobId =>
      dsimp only
      unfold JobChannel.refuseJobLocked
      cases c.jobs[jobId]? with
      | none => rfl
      | some job =>
        dsimp only
        split_ifs
        · rfl
        · dsimp only
          rw [held_append, held_fail, held_release]
          rfl
  | notJob messageId => exact ⟨nofun, fun _ => rfl⟩

end

/-! ## Over every run -/

/-- No move attaches or detaches the sink. -/
theorem kept_detached (detached : Bool) :
    Kept fun c _ => Exact c ∧ c.sinkDetached = detached :=
  kept_exact.framed JobChannel.sinkDetached detached fun _ _ _ _ _ _ _ _ _ _ _ _ _ _ _ _ => rfl

/-- What happens and is about no buffer and no call. -/
def Unheld : Happening → Prop
  | .allocated _ => False
  | .freed _ => False
  | .called _ => False
  | _ => True

/-- **The invariant of the buffers.** -/
structure Accounts (w : World) : Prop where
  orderly : Orderly w
  taken : allocated w.history = List.range w.buffers
  each : (freed w.history ++ held (given w.history ++ w.due)).Perm (List.range w.buffers)

section

variable {w w' : World}

theorem allocated_append (H l : List Happening) : allocated (H ++ l) = allocated H ++ allocated l :=
  List.filterMap_append

theorem freed_append (H l : List Happening) : freed (H ++ l) = freed H ++ freed l :=
  List.filterMap_append

theorem unheld_nil {l : List Happening} (hl : ∀ x ∈ l, Unheld x) :
    allocated l = [] ∧ freed l = [] ∧ given l = [] := by
  refine ⟨?_, ?_, ?_⟩
  all_goals
    refine List.filterMap_eq_nil_iff.2 fun x hx => ?_
    have hq := hl x hx
    cases x <;> first | rfl | exact hq.elim

/-- A step that is about no buffer. -/
theorem Accounts.still (h : Accounts w) (ho : Orderly w') (hbuffers : w'.buffers = w.buffers)
    (l : List Happening) (hl : ∀ x ∈ l, Unheld x) (hhist : w'.history = w.history ++ l)
    (hdue : w'.due = w.due) : Accounts w' := by
  obtain ⟨hallocated, hfreed, hgiven⟩ := unheld_nil hl
  refine ⟨ho, ?_, ?_⟩
  · rw [hhist, allocated_append, hallocated, List.append_nil, hbuffers]
    exact h.taken
  · rw [hhist, freed_append, given_append, hfreed, hgiven, List.append_nil, List.append_nil, hdue,
      hbuffers]
    exact h.each

theorem Accounts.rests (h : Accounts w) (ho : Orderly w') (hbuffers : w'.buffers = w.buffers)
    (hhist : w'.history = w.history) (hdue : w'.due = w.due) : Accounts w' :=
  h.still ho hbuffers [] (fun x hx => absurd hx List.not_mem_nil) (by rw [hhist, List.append_nil])
    hdue

@[simp] theorem decide_buffers (w : World) (decided : JobChannel × List Delivery) :
    (w.decide decided).buffers = w.buffers := by
  unfold World.decide World.deliver
  dsimp only
  split_ifs
  · rfl
  · rfl

/-- The calls decided for a detached sink are dropped. -/
theorem due_decide_detached (hbatch : w.batch = none) {c : JobChannel}
    (hdet : c.sinkDetached = true) (out : List Delivery) : (w.decide (c, out)).due = [] := by
  have howed : (c.oweLocked out).2 = [] := by
    unfold JobChannel.oweLocked
    rw [if_pos hdet]
  unfold World.decide World.deliver World.due
  dsimp only
  rw [howed]
  simp only [List.isEmpty_nil, if_true, hbatch]

/-- Calls that hold no buffer are decided. -/
theorem held_due_decide (hbatch : w.batch = none) (c : JobChannel) {out : List Delivery}
    (hout : held out = []) : held (w.decide (c, out)).due = [] := by
  cases hdet : c.sinkDetached with
  | true =>
    rw [due_decide_detached hbatch hdet]
    rfl
  | false =>
    rw [due_decide hbatch hdet]
    exact hout

/-- The end of a connection and a stop decide no call that holds a buffer. -/
theorem Accounts.decides (h : Accounts w) (hbatch : w.batch = none) (c : JobChannel)
    {out : List Delivery} (hout : held out = []) (ho : Orderly w')
    (hhist : w'.history = w.history) (hbuffers : w'.buffers = w.buffers)
    (hdue : w'.due = (w.decide (c, out)).due) : Accounts w' := by
  refine ⟨ho, ?_, ?_⟩
  · rw [hhist, hbuffers]
    exact h.taken
  · have heach := h.each
    rw [given_due hbatch] at heach
    rw [hhist, hbuffers, hdue, held_append, held_due_decide hbatch c hout, List.append_nil]
    exact heach

/-- Only a message's own event is received. -/
theorem event_of_delivered {c : JobChannel} {message : SidecarJobMessage} {frame : SidecarFrame}
    {health : Except Error Unit} (h : (c.routeLocked message frame health).2.2 = true) :
    ∃ e, message = .event e := by
  cases message with
  | event e => exact ⟨e, rfl⟩
  | fault jobId error session => exact absurd h Bool.false_ne_true
  | sessionReleased key generation => exact absurd h Bool.false_ne_true
  | refused messageId error => exact absurd h Bool.false_ne_true
  | notJob messageId => exact absurd h Bool.false_ne_true

/-- What the batch of a routed message holds. -/
theorem held_due_route (h : Accounts w) (hbatch : w.batch = none) {message : SidecarJobMessage}
    {published : Option ℕ} (hheld : ∀ e, message = .event e → e.buffer = published)
    (frame : SidecarFrame) (health : Except Error Unit) :
    held (w.decide ((w.channel.routeLocked message frame health).1,
        (w.channel.routeLocked message frame health).2.1)).due =
      if (w.channel.routeLocked message frame health).2.2 then published.toList else [] := by
  obtain ⟨-, hsame⟩ := (kept_detached w.channel.sinkDetached).route (D := [])
    ⟨h.orderly.exact, rfl⟩ message frame health
  cases hdet : w.channel.sinkDetached with
  | true =>
    rw [due_decide_detached hbatch (hsame.trans hdet)]
    by_cases hdelivered : (w.channel.routeLocked message frame health).2.2 = true
    · obtain ⟨e, rfl⟩ := event_of_delivered hdelivered
      have hno : (w.channel.admitLocked e).2.2 = false := not_delivered_of_detached hdet e
      exact absurd (hno.symm.trans hdelivered) Bool.false_ne_true
    · rw [if_neg hdelivered]
      rfl
  | false =>
    rw [due_decide hbatch (hsame.trans hdet)]
    obtain ⟨hyes, hno⟩ := holds_route hdet message frame health
    by_cases hdelivered : (w.channel.routeLocked message frame health).2.2 = true
    · obtain ⟨e, rfl⟩ := event_of_delivered hdelivered
      rw [if_pos hdelivered, ← hheld e rfl]
      exact hyes hdelivered
    · rw [if_neg hdelivered]
      exact hno (Bool.not_eq_true _ ▸ hdelivered)

/-- **A message is routed**: its buffer goes to the sink, or back. -/
theorem Accounts.route (h : Accounts w) (hbatch : w.batch = none) {message : SidecarJobMessage}
    {published : Option ℕ} (hpub : ∀ b, published = some b → b = w.buffers)
    (hheld : ∀ e, message = .event e → e.buffer = published) (frame : SidecarFrame)
    (health : Except Error Unit) : Accounts (w.route message published frame health) := by
  have ho := h.orderly.route message published frame health
  have hdue := held_due_route h hbatch hheld frame health
  have heach := h.each
  rw [given_due hbatch] at heach
  refine ⟨ho, ?_, ?_⟩
  · unfold World.route
    dsimp only
    cases published with
    | none =>
      dsimp only
      rw [decide_history, decide_buffers]
      exact h.taken
    | some b =>
      obtain rfl := hpub b rfl
      show allocated ((w.decide _).history ++ _) = List.range (w.buffers + 1)
      rw [decide_history, allocated_append, h.taken, List.range_succ]
      congr 1
      split_ifs
      · rfl
      · rfl
  · unfold World.route
    dsimp only
    cases published with
    | none =>
      dsimp only
      rw [decide_history, decide_buffers, held_append, hdue, Option.toList_none, ite_self,
        List.append_nil]
      exact heach
    | some b =>
      obtain rfl := hpub b rfl
      show (freed ((w.decide _).history ++ _) ++ held (given ((w.decide _).history ++ _) ++
        (w.decide _).due)).Perm (List.range (w.buffers + 1))
      rw [decide_history, freed_append, given_append, held_append, hdue, List.range_succ]
      by_cases hdelivered : (w.channel.routeLocked message frame health).2.2 = true
      · rw [if_pos hdelivered, if_pos hdelivered]
        show ((freed w.history ++ []) ++ (held (given w.history ++ []) ++ [w.buffers])).Perm _
        rw [List.append_nil, List.append_nil, ← List.append_assoc]
        exact heach.append_right _
      · rw [if_neg hdelivered, if_neg hdelivered]
        show ((freed w.history ++ [w.buffers]) ++ (held (given w.history ++ []) ++ [])).Perm _
        rw [List.append_nil, List.append_nil, List.append_assoc]
        refine (List.perm_append_comm.append_left _).trans ?_
        rw [← List.append_assoc]
        exact heach.append_right _

/-- The buffer a frame's message was given, and what its event holds. -/
theorem decode_buffer {manager : Bool} {content : SidecarContent} {publication : Publication}
    {buffer : ℕ} {message : SidecarJobMessage} {published : Option ℕ}
    (hplain : content.plain = true)
    (h : decode manager content publication buffer = some (message, published)) :
    (∀ b, published = some b → b = buffer) ∧
      ∀ e, message = .event e → e.buffer = published := by
  unfold decode at h
  cases content with
  | unreadable => exact absurd h (by simp)
  | message m =>
    obtain ⟨rfl, rfl⟩ := Prod.mk.inj (Option.some.inj h)
    refine ⟨fun b hb => absurd hb (by simp), fun e he => ?_⟩
    rw [he] at hplain
    exact Option.isNone_iff_eq_none.1 hplain
  | chunk identity progress byteSize =>
    dsimp only at h
    split_ifs at h
    · obtain ⟨rfl, rfl⟩ := Prod.mk.inj (Option.some.inj h)
      exact ⟨fun b hb => absurd hb (by simp), fun e he => absurd he (by simp)⟩
    · cases publication with
      | unallocated error =>
        obtain ⟨rfl, rfl⟩ := Prod.mk.inj (Option.some.inj h)
        exact ⟨fun b hb => absurd hb (by simp), fun e he => absurd he (by simp)⟩
      | withoutData error =>
        obtain ⟨rfl, rfl⟩ := Prod.mk.inj (Option.some.inj h)
        exact ⟨fun b hb => (Option.some.inj hb).symm, fun e he => absurd he (by simp)⟩
      | unusable =>
        obtain ⟨rfl, rfl⟩ := Prod.mk.inj (Option.some.inj h)
        exact ⟨fun b hb => (Option.some.inj hb).symm, fun e he => absurd he (by simp)⟩
      | usable =>
        obtain ⟨rfl, rfl⟩ := Prod.mk.inj (Option.some.inj h)
        refine ⟨fun b hb => (Option.some.inj hb).symm, fun e he => ?_⟩
        obtain rfl := SidecarJobMessage.event.inj he
        cases progress with
        | none => rfl
        | some n => rfl

/-- **Every step keeps the account.** -/
theorem Accounts.step {a : Action} (h : Accounts w) (hs : w.step a = some w') : Accounts w' := by
  have ho := h.orderly.step hs
  cases a with
  | start isOpen jobClasses threads =>
    unfold World.step at hs
    dsimp only at hs
    split_ifs at hs
    split at hs
    · obtain rfl := Option.some.inj hs
      exact h.rests ho rfl rfl rfl
    · obtain rfl := Option.some.inj hs
      exact h.rests ho rfl rfl rfl
  | admitJobs =>
    obtain rfl := Option.some.inj hs
    exact h.rests ho rfl rfl rfl
  | closeAdmission =>
    obtain rfl := Option.some.inj hs
    exact h.rests ho rfl rfl rfl
  | retire =>
    obtain rfl := Option.some.inj hs
    exact h.rests ho rfl rfl rfl
  | setEventSink isNull =>
    obtain rfl := Option.some.inj hs
    exact h.rests ho rfl rfl rfl
  | detachBegin =>
    obtain rfl := Option.some.inj hs
    exact h.rests ho rfl rfl rfl
  | detachEnd =>
    unfold World.step at hs
    dsimp only at hs
    split_ifs at hs
    obtain rfl := Option.some.inj hs
    exact h.still ho rfl [.detached] (by simp [Unheld]) rfl rfl
  | submit job window encoded =>
    obtain rfl := Option.some.inj hs
    refine h.still ho rfl _ (fun x hx => ?_) rfl rfl
    split at hx
    · rw [List.mem_singleton.1 hx]
      trivial
    · rw [List.mem_singleton.1 hx]
      trivial
  | cancel jobId encoded =>
    obtain rfl := Option.some.inj hs
    refine h.still ho rfl _ (fun x hx => ?_) rfl rfl
    split at hx
    · obtain ⟨n, -, rfl⟩ := List.mem_map.1 hx
      trivial
    · exact absurd hx List.not_mem_nil
  | releaseSession key generation encoded =>
    obtain rfl := Option.some.inj hs
    refine h.still ho rfl _ (fun x hx => ?_) rfl rfl
    split at hx
    · rw [List.mem_singleton.1 hx]
      trivial
    · exact absurd hx List.not_mem_nil
  | exchange messageId encoded =>
    unfold World.step at hs
    dsimp only at hs
    split at hs
    · obtain rfl := Option.some.inj hs
      exact h.rests ho rfl rfl rfl
    · obtain rfl := Option.some.inj hs
      exact h.rests ho rfl rfl rfl
  | exchangeWake ticket =>
    unfold World.step at hs
    dsimp only at hs
    split_ifs at hs
    obtain rfl := Option.some.inj hs
    exact h.rests ho rfl rfl rfl
  | probeHealth encoded =>
    unfold World.step at hs
    dsimp only at hs
    split at hs
    · obtain rfl := Option.some.inj hs
      exact h.rests ho rfl rfl rfl
    · obtain rfl := Option.some.inj hs
      exact h.rests ho rfl rfl rfl
  | probeWake probe =>
    unfold World.step at hs
    dsimp only at hs
    split_ifs at hs
    obtain rfl := Option.some.inj hs
    exact h.rests ho rfl rfl rfl
  | drawMessageId =>
    obtain rfl := Option.some.inj hs
    exact h.rests ho rfl rfl rfl
  | readFrame content publication frame health =>
    unfold World.step at hs
    dsimp only at hs
    split_ifs at hs with hr
    rw [not_or, not_or, ne_eq, not_not, Option.not_isSome_iff_eq_none, Bool.not_eq_false] at hr
    obtain ⟨hreading, hbatch, hplain⟩ := hr
    split at hs
    · obtain rfl := Option.some.inj hs
      exact h.decides hbatch _ (held_end _ _) ho (decide_history _ _) (decide_buffers _ _) rfl
    · rename_i message published hdecode
      obtain rfl := Option.some.inj hs
      obtain ⟨hpub, hheld⟩ := decode_buffer hplain hdecode
      exact h.route hbatch hpub hheld frame health
  | readError error =>
    unfold World.step at hs
    dsimp only at hs
    split_ifs at hs with hr
    rw [not_or, ne_eq, not_not, Option.not_isSome_iff_eq_none] at hr
    obtain rfl := Option.some.inj hs
    exact h.decides hr.2 _ (held_end _ _) ho (decide_history _ _) (decide_buffers _ _) rfl
  | callSink =>
    unfold World.step at hs
    dsimp only at hs
    split at hs
    · rename_i call rest n hbatch
      obtain rfl := Option.some.inj hs
      refine ⟨ho, ?_, ?_⟩
      · show allocated (w.history ++ [.called call]) = _
        rw [allocated_append]
        exact (List.append_nil _).trans h.taken
      · have heach := h.each
        unfold World.due at heach
        rw [hbatch] at heach
        show (freed (w.history ++ [.called call]) ++
          held (given (w.history ++ [.called call]) ++ rest)).Perm _
        rw [freed_append, given_append, List.append_assoc (given w.history)]
        show ((freed w.history ++ []) ++ held (given w.history ++ call :: rest)).Perm _
        rw [List.append_nil]
        exact heach
    · exact absurd hs (by simp)
  | delivered =>
    unfold World.step at hs
    dsimp only at hs
    split at hs
    · rename_i n hbatch
      obtain rfl := Option.some.inj hs
      refine h.rests ho rfl rfl ?_
      unfold World.due
      rw [hbatch]
    · exact absurd hs (by simp)
  | takeFrame =>
    unfold World.step at hs
    dsimp only at hs
    split_ifs at hs
    split at hs
    · exact absurd hs (by simp)
    · obtain rfl := Option.some.inj hs
      refine h.still ho rfl _ (fun x hx => ?_) rfl rfl
      rw [List.mem_singleton.1 hx]
      trivial
  | writerLeaves =>
    unfold World.step at hs
    dsimp only at hs
    split_ifs at hs
    obtain rfl := Option.some.inj hs
    exact h.rests ho rfl rfl rfl
  | writeDone =>
    unfold World.step at hs
    dsimp only at hs
    split at hs
    · obtain rfl := Option.some.inj hs
      exact h.rests ho rfl rfl rfl
    · exact absurd hs (by simp)
  | writeFailed error =>
    unfold World.step at hs
    dsimp only at hs
    split at hs
    · obtain rfl := Option.some.inj hs
      exact h.rests ho rfl rfl rfl
    · exact absurd hs (by simp)
  | stopBegin reason =>
    unfold World.step at hs
    dsimp only at hs
    split_ifs at hs
    split at hs
    · obtain rfl := Option.some.inj hs
      exact h.still ho rfl [.stopped] (by simp [Unheld]) rfl rfl
    · obtain rfl := Option.some.inj hs
      exact h.rests ho rfl rfl rfl
  | stopJoined =>
    unfold World.step at hs
    dsimp only at hs
    split_ifs at hs with hj
    obtain rfl := Option.some.inj hs
    exact h.decides (Option.isNone_iff_eq_none.1 hj.2.2.1) _ (held_stop _) ho (decide_history _ _)
      (decide_buffers _ _) rfl
  | stopReturns =>
    unfold World.step at hs
    dsimp only at hs
    split_ifs at hs
    obtain rfl := Option.some.inj hs
    exact h.still ho rfl [.stopped] (by simp [Unheld]) rfl rfl

end

theorem accounts_fresh (manager : Bool) : Accounts (fresh manager) :=
  ⟨orderly_fresh manager, rfl, .refl _⟩

/-- **Every buffer of a chunk is the sink's once or given back once.** In
every run, with the sink attached or not, the buffers given back and those
of the calls made and in flight are the buffers taken, each once. -/
theorem buffers_settled {manager : Bool} {w : World}
    (hrun : Run World.step Free (fresh manager) w) :
    (allocated w.history).Nodup ∧
      (freed w.history ++ held (given w.history ++ w.due)).Perm (allocated w.history) := by
  have h : Accounts w := hrun.invariant (accounts_fresh manager) fun _ _ _ h _ hs => h.step hs
  rw [h.taken]
  exact ⟨List.nodup_range, h.each⟩

/-- Two chunks of one job, the second out of its turn. -/
def twoChunks : List Action :=
  [.start true [.ttsSynthesis] true, .setEventSink false, .admitJobs,
    .submit oneSegment true none,
    .readFrame (.message (.event ⟨⟨3, 7, 1⟩, .accepted⟩)) .usable ⟨""⟩ (.ok ()), .callSink,
    .delivered, .readFrame (.chunk ⟨3, 7, 1⟩ (some 1) 4) .usable ⟨""⟩ (.ok ()), .callSink,
    .delivered, .readFrame (.chunk ⟨3, 7, 1⟩ (some 3) 4) .usable ⟨""⟩ (.ok ())]

theorem twoChunks_ends : ((exec World.step (fresh true) twoChunks).map fun w =>
    (allocated w.history, freed w.history, held (given w.history ++ w.due))) =
      some ([0, 1], [1], [0]) := by
  decide +kernel

theorem buffers_settled_chunks : ∃ w, Run World.step Free (fresh true) w ∧
    freed w.history = [1] ∧ held (given w.history ++ w.due) = [0] ∧
    (freed w.history ++ held (given w.history ++ w.due)).Perm (allocated w.history) := by
  obtain ⟨w, hexec, hread⟩ := Option.map_eq_some_iff.1 twoChunks_ends
  simp only [Prod.mk.injEq] at hread
  have hrun : Run World.step Free (fresh true) w := Run.of_exec hexec
  exact ⟨w, hrun, hread.2.1, hread.2.2, (buffers_settled hrun).2⟩

end Channel

end Tensorplate
