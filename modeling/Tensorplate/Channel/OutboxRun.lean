import Mathlib.Data.List.Perm.Subperm
import Tensorplate.Channel.Queueing
import Tensorplate.Lib.Runs

/-!
# The queue over every run

Callers, the reader, the writer and stops interleave freely. Through all of
it the queue is exact, a channel that is not started has an empty one, and
a frame is written on the connection it was queued for.
-/

namespace Tensorplate

namespace Channel

open Lib

/-! ## What an exact queue gives -/

section

variable {c : JobChannel}

/-- The records there are, a frame of each kind for each. -/
def records (c : JobChannel) : List (QueuedFor × ℕ) :=
  (c.jobs.toList.map fun p => (QueuedFor.submit, p.1)) ++
    (c.jobs.toList.map fun p => (QueuedFor.cancel, p.1)) ++
    (c.releasing.toList.map fun p => (QueuedFor.release, p.1)) ++ [(.exchange, 0), (.probe, 0)]

theorem record_mem_records {f : QueuedFrame} (h : Owned c f) : f.record ∈ records c := by
  unfold records
  unfold Owned at h
  simp only [List.mem_append]
  have hmem : ∀ {α : Type} {t : Table α} {v : α} (owner : QueuedFor), f.owner = owner →
      t[f.key]? = some v → f.record ∈ t.toList.map fun p => (owner, p.1) := by
    intro α t v owner ho hv
    refine List.mem_map.2 ⟨(f.key, v), Table.mem_toList.2 hv, ?_⟩
    rw [QueuedFrame.record, ho]
  cases hw : f.owner with
  | submit =>
    rw [hw] at h
    obtain ⟨job, hj⟩ := h
    exact .inl (.inl (.inl (hmem _ hw hj)))
  | cancel =>
    rw [hw] at h
    obtain ⟨job, hj, -⟩ := h
    exact .inl (.inl (.inr (hmem _ hw hj)))
  | release =>
    rw [hw] at h
    obtain ⟨p, hp⟩ := h
    exact .inl (.inr (hmem _ hw hp))
  | exchange =>
    rw [hw] at h
    rw [QueuedFrame.record, hw, h.1]
    simp
  | probe =>
    rw [hw] at h
    rw [QueuedFrame.record, hw, h.1]
    simp

/-- **The records bound the queue.** -/
theorem Exact.length_outbox (h : Exact c) : c.outbox.length ≤ kMaxQueuedFrames := by
  have hsub : c.outbox.map QueuedFrame.record ⊆ records c := by
    intro r hr
    obtain ⟨f, hf, rfl⟩ := List.mem_map.1 hr
    exact record_mem_records (h.owned f hf)
  have hlen := (h.once.subperm hsub).length_le
  unfold records at hlen
  simp only [List.length_map, List.length_append, Std.TreeMap.length_toList, List.length_cons,
    List.length_nil] at hlen
  have := h.fewJobs
  have := h.fewReleases
  unfold kMaxQueuedFrames
  omega

/-- A channel that is not started has nothing queued. -/
theorem Exact.outbox_quiet (h : Exact c) (hq : c.phase = .idle ∨ c.phase = .stopped) :
    c.outbox = [] := by
  obtain ⟨hj, hr, hu, hp, -⟩ := h.quiet hq
  rw [List.eq_nil_iff_forall_not_mem]
  intro f hf
  have ho := h.owned f hf
  unfold Owned at ho
  cases hw : f.owner <;> rw [hw] at ho <;> simp [hj, hr, hu, hp] at ho

theorem Exact.started (h : Exact c) (hq : c.phase = .idle ∨ c.phase = .stopped)
    (jobClasses : List JobClass) : Exact { c with
      jobClasses := jobClasses, phase := .started, connection := c.connection + 1 } := by
  have hout := h.outbox_quiet hq
  have hended := (h.quiet hq).2.2.2.2
  refine { h with
    job := fun hj => (h.job hj).mono le_rfl
    quiet := fun hs => by rcases hs with hs | hs <;> cases hs
    current := fun f hf => ?_ }
  have hmem : f ∈ c.outbox := hf
  rw [hout] at hmem
  cases hmem

/-- The phase moves among those of a started channel. -/
theorem Exact.moved (h : Exact c) {phase : Phase} (hi : phase ≠ .idle) (hs : phase ≠ .stopped) :
    Exact { c with phase := phase } :=
  { h with
    job := fun hj => (h.job hj).mono le_rfl
    quiet := fun hq => absurd hq (not_or.2 ⟨hi, hs⟩) }

theorem Exact.admitJobs (h : Exact c) : Exact c.admitJobs := by
  unfold JobChannel.admitJobs
  split_ifs
  · exact h.moved nofun nofun
  · exact h

theorem Exact.closeAdmission (h : Exact c) : Exact c.closeAdmission := by
  unfold JobChannel.closeAdmission
  split_ifs
  · exact h.moved nofun nofun
  · exact h

/-- The writer takes the first frame. -/
theorem Exact.taken {f : QueuedFrame} {rest : List QueuedFrame} (h : Exact c)
    (hout : c.outbox = f :: rest) : Exact { c with outbox := rest } :=
  { h with
    job := fun hj => (h.job hj).mono le_rfl
    owned := fun g hg => h.owned g (by rw [hout]; exact List.mem_cons_of_mem _ hg)
    once := by
      have := h.once
      rw [hout, List.map_cons] at this
      exact (List.nodup_cons.1 this).2
    current := fun g hg => h.current g (by rw [hout]; exact List.mem_cons_of_mem _ hg) }

theorem exact_owe (h : Exact c) (out : List Delivery) : Exact (c.oweLocked out).1 := by
  unfold JobChannel.oweLocked
  split_ifs
  · exact h
  · exact h.same rfl le_rfl le_rfl

end

/-! ## The connection a move leaves -/

/-- A move of a connection leaves its phase, and that it has not ended. -/
theorem moves_connected (phase : Phase) (ended : Bool) :
    Moves fun c _ => Exact c ∧ c.phase = phase ∧ c.ended = ended where
  sound := fun h => h.1.toSound
  named := fun h => kept_exact.named (D := []) h.1
  told := fun h hj ho he => ⟨kept_exact.told (D := []) h.1 hj ho he, h.2⟩
  gone := fun h hj ho he => ⟨kept_exact.gone (D := []) h.1 hj ho he, h.2⟩
  acknowledged := fun h hp hn => ⟨kept_exact.acknowledged (D := []) h.1 hp hn, h.2⟩
  marked := fun h hp => ⟨kept_exact.marked (D := []) h.1 hp, h.2⟩
  jobDropped := fun h => ⟨kept_exact.jobDropped (D := []) h.1, h.2⟩
  otherDropped := fun h => ⟨kept_exact.otherDropped (D := []) h.1, h.2⟩
  unaryAnswered := fun {c _} outcome h => by
    refine ⟨kept_exact.unaryAnswered (D := []) outcome h.1, ?_⟩
    unfold JobChannel.answerUnary
    split <;> exact h.2
  probeEnded := fun {c _} outcome h => by
    refine ⟨kept_exact.probeEnded (D := []) outcome h.1, ?_⟩
    unfold JobChannel.endProbeLocked
    split <;> exact h.2

/-- No move leads to another connection. -/
theorem kept_connection (n : ℕ) : Kept fun c _ => Exact c ∧ c.connection = n where
  sound := fun h => h.1.toSound
  named := fun h => kept_exact.named (D := []) h.1
  told := fun h hj ho he => ⟨kept_exact.told (D := []) h.1 hj ho he, h.2⟩
  gone := fun h hj ho he => ⟨kept_exact.gone (D := []) h.1 hj ho he, h.2⟩
  acknowledged := fun h hp hn => ⟨kept_exact.acknowledged (D := []) h.1 hp hn, h.2⟩
  marked := fun h hp => ⟨kept_exact.marked (D := []) h.1 hp, h.2⟩
  jobDropped := fun h => ⟨kept_exact.jobDropped (D := []) h.1, h.2⟩
  otherDropped := fun h => ⟨kept_exact.otherDropped (D := []) h.1, h.2⟩
  unaryAnswered := fun {c _} outcome h => by
    refine ⟨kept_exact.unaryAnswered (D := []) outcome h.1, ?_⟩
    unfold JobChannel.answerUnary
    split <;> exact h.2
  probeEnded := fun {c _} outcome h => by
    refine ⟨kept_exact.probeEnded (D := []) outcome h.1, ?_⟩
    unfold JobChannel.endProbeLocked
    split <;> exact h.2
  ended := fun failure h hi hs hu hp ht =>
    ⟨kept_exact.ended (D := []) failure h.1 hi hs hu hp ht, h.2⟩
  stopped := fun h hu hp hj hr => ⟨kept_exact.stopped (D := []) h.1 hu hp hj hr, h.2⟩

/-! ## What is owed -/

section

variable (w : World) (decided : JobChannel × List Delivery)

@[simp] theorem decide_channel :
    (w.decide decided).channel = (decided.1.oweLocked decided.2).1 := by
  unfold World.decide World.deliver
  dsimp only
  split_ifs <;> rfl

@[simp] theorem decide_reader : (w.decide decided).reader = w.reader := by
  unfold World.decide World.deliver
  dsimp only
  split_ifs <;> rfl

@[simp] theorem decide_writer : (w.decide decided).writer = w.writer := by
  unfold World.decide World.deliver
  dsimp only
  split_ifs <;> rfl

@[simp] theorem decide_stopper : (w.decide decided).stopper = w.stopper := by
  unfold World.decide World.deliver
  dsimp only
  split_ifs <;> rfl

@[simp] theorem decide_history : (w.decide decided).history = w.history := by
  unfold World.decide World.deliver
  dsimp only
  split_ifs <;> rfl

theorem connected_owe (c : JobChannel) (out : List Delivery) :
    c.Connected (c.oweLocked out).1 := by
  unfold JobChannel.oweLocked
  split_ifs <;> exact ⟨rfl, rfl, rfl⟩

end

/-! ## Every step -/

/-- **The invariant of a run.** -/
structure Orderly (w : World) : Prop where
  exact : Exact w.channel
  reading : w.reader = .reading →
    (w.channel.phase ≠ .idle ∧ w.channel.phase ≠ .stopped) ∧ w.channel.ended = false
  leaving : w.reader = .leaving → w.channel.ended = true
  delivering : w.stopper = .delivering → w.channel.phase = .stopped
  joined : w.channel.phase = .idle ∨ w.channel.phase = .stopped → w.writer = .off
  writing : ∀ f, w.writer = .writing f → f.connection = w.channel.connection
  written : ∀ f n, .written f n ∈ w.history → f.connection = n

section

variable {w w' : World}

/-- A step that leaves the connection and the threads as they are. -/
theorem Orderly.call (h : Orderly w) (hx : Exact w'.channel) (hc : w.channel.Connected w'.channel)
    (hreader : w'.reader = w.reader) (hwriter : w'.writer = w.writer)
    (hstopper : w'.stopper = w.stopper)
    (hhist : ∀ f n, .written f n ∈ w'.history → .written f n ∈ w.history) : Orderly w' where
  exact := hx
  reading := by
    rw [hreader, hc.phase, hc.ended]
    exact h.reading
  leaving := by
    rw [hreader, hc.ended]
    exact h.leaving
  delivering := by
    rw [hstopper, hc.phase]
    exact h.delivering
  joined := by
    rw [hc.phase, hwriter]
    exact h.joined
  writing := by
    rw [hwriter, hc.connection]
    exact h.writing
  written := fun f n hmem => h.written f n (hhist f n hmem)

theorem Orderly.reply (h : Orderly w) {c : JobChannel} (hx : Exact c)
    (hc : w.channel.Connected c) (l : List Happening) (hl : ∀ f n, .written f n ∉ l) :
    Orderly ({ w with channel := c }.log l) := by
  refine Orderly.call h hx hc rfl rfl rfl fun f n hmem => ?_
  rcases List.mem_append.1 hmem with hmem | hmem
  · exact hmem
  · exact absurd hmem (hl f n)

theorem Orderly.start (h : Orderly w) {isOpen : Bool} {jobClasses : List JobClass} {threads : Bool}
    (hs : w.step (.start isOpen jobClasses threads) = some w') : Orderly w' := by
  unfold World.step at hs
  dsimp only at hs
  split_ifs at hs with hidle
  rw [ne_eq, not_not] at hidle
  rcases JobChannel.start_cases (c := w.channel) isOpen jobClasses threads with
    ⟨error, heq⟩ | ⟨hq, heq⟩
  · rw [heq] at hs
    cases hs
    exact h
  · rw [heq] at hs
    cases hs
    refine ⟨h.exact.started hq jobClasses, fun _ => ⟨⟨nofun, nofun⟩, ?_⟩, nofun, fun hd => ?_,
      fun hp => ?_, nofun, h.written⟩
    · exact (h.exact.quiet hq).2.2.2.2
    · rw [show w.stopper = .delivering from hd] at hidle
      cases hidle
    · rcases hp with hp | hp <;> cases hp

/-- What the channel decided is owed. -/
theorem Orderly.decided {c : JobChannel} {out : List Delivery} (h : Orderly w) (hx : Exact c)
    (hc : w.channel.Connected c) : Orderly (w.decide (c, out)) := by
  have ho := connected_owe c out
  refine h.call ?_ ?_ (decide_reader _ _) (decide_writer _ _) (decide_stopper _ _)
    fun f n hmem => ?_
  · rw [decide_channel]
    exact exact_owe hx out
  · rw [decide_channel]
    exact ⟨ho.phase.trans hc.phase, ho.ended.trans hc.ended, ho.connection.trans hc.connection⟩
  · rw [decide_history] at hmem
    exact hmem

theorem Orderly.route (h : Orderly w) (message : SidecarJobMessage)
    (published : Option ℕ) (frame : SidecarFrame) (health : Except Error Unit) :
    Orderly (w.route message published frame health) := by
  obtain ⟨hx, hphase, hended⟩ := (moves_connected w.channel.phase w.channel.ended).route (D := [])
    ⟨h.exact, rfl, rfl⟩ message frame health
  obtain ⟨-, hconn⟩ := (kept_connection w.channel.connection).route (D := [])
    ⟨h.exact, rfl⟩ message frame health
  have hd : Orderly (w.decide (_, (w.channel.routeLocked message frame health).2.1)) :=
    h.decided hx ⟨hphase, hended, hconn⟩
  unfold World.route
  dsimp only
  split
  · exact hd
  · refine hd.call hd.exact ⟨rfl, rfl, rfl⟩ rfl rfl rfl fun f n hmem => ?_
    rcases List.mem_append.1 hmem with hmem | hmem
    · exact hmem
    · split_ifs at hmem <;> simp at hmem

theorem Orderly.endConnection (h : Orderly w) (hr : w.reader = .reading) (error : Error) :
    Orderly (w.endConnection error) := by
  obtain ⟨⟨hi, hst⟩, -⟩ := h.reading hr
  obtain ⟨hx, hconn⟩ := (kept_connection w.channel.connection).endConnection (D := [])
    ⟨h.exact, rfl⟩ hi hst error
  obtain ⟨hphase, hended⟩ := endLocked_frame w.channel error
  obtain ⟨hp, he, hn⟩ := connected_owe (w.channel.endLocked error).1 (w.channel.endLocked error).2
  unfold World.endConnection
  refine ⟨?_, nofun, fun _ => ?_, fun hdel => ?_, fun hq => ?_, fun f hf => ?_, fun f n hmem => ?_⟩
  · show Exact (w.decide _).channel
    rw [decide_channel]
    exact exact_owe hx _
  · show (w.decide _).channel.ended = true
    rw [decide_channel]
    exact he.trans hended
  · change (w.decide _).stopper = _ at hdel
    rw [decide_stopper] at hdel
    exact absurd (h.delivering hdel) hst
  · change (w.decide _).channel.phase = _ ∨ (w.decide _).channel.phase = _ at hq
    rw [decide_channel, hp, hphase] at hq
    exact absurd hq (not_or.2 ⟨hi, hst⟩)
  · change (w.decide _).writer = _ at hf
    rw [decide_writer] at hf
    show _ = (w.decide _).channel.connection
    rw [decide_channel, hn, hconn]
    exact h.writing f hf
  · change Happening.written f n ∈ (w.decide _).history at hmem
    rw [decide_history] at hmem
    exact h.written f n hmem

theorem Orderly.stopJoined (h : Orderly w) (hs : w.step .stopJoined = some w') : Orderly w' := by
  unfold World.step at hs
  dsimp only at hs
  split_ifs at hs with hj
  cases hs
  obtain ⟨-, hr, -, hoff⟩ := hj
  have hx : Exact w.channel.stopLocked.1 :=
    kept_exact.stop (D := []) h.exact (h.leaving hr)
  have hp := (connected_owe w.channel.stopLocked.1 w.channel.stopLocked.2).phase
  have hwriter : (w.decide w.channel.stopLocked).writer = .off := by
    rw [decide_writer]
    exact hoff
  refine ⟨?_, nofun, nofun, fun _ => ?_, fun _ => hwriter, fun f hf => ?_, fun f n hmem => ?_⟩
  · show Exact (w.decide _).channel
    rw [decide_channel]
    exact exact_owe hx _
  · show (w.decide _).channel.phase = .stopped
    rw [decide_channel]
    exact hp
  · change (w.decide _).writer = _ at hf
    rw [hwriter] at hf
    cases hf
  · change Happening.written f n ∈ (w.decide _).history at hmem
    rw [decide_history] at hmem
    exact h.written f n hmem

theorem Orderly.takeFrame (h : Orderly w) (hs : w.step .takeFrame = some w') : Orderly w' := by
  unfold World.step at hs
  dsimp only at hs
  split_ifs at hs
  split at hs
  · cases hs
  · next f rest hout =>
    cases hs
    have hf : f.connection = w.channel.connection :=
      h.exact.current f (by rw [hout]; exact List.mem_cons_self)
    refine ⟨h.exact.taken hout, h.reading, h.leaving, h.delivering, fun hq => ?_, fun g hg => ?_,
      fun g n hmem => ?_⟩
    · have hempty := h.exact.outbox_quiet hq
      rw [hout] at hempty
      cases hempty
    · cases hg
      exact hf
    · rcases List.mem_append.1 hmem with hmem | hmem
      · exact h.written g n hmem
      · rw [List.mem_singleton, Happening.written.injEq] at hmem
        obtain ⟨rfl, rfl⟩ := hmem
        exact hf

theorem Orderly.stopBegin (h : Orderly w) {reason : String}
    (hs : w.step (.stopBegin reason) = some w') : Orderly w' := by
  unfold World.step JobChannel.stopBegin at hs
  dsimp only at hs
  split_ifs at hs with hidle hq
  · cases hs
    refine h.call h.exact ⟨rfl, rfl, rfl⟩ rfl rfl rfl fun f n hmem => ?_
    rcases List.mem_append.1 hmem with hmem | hmem
    · exact hmem
    · simp at hmem
  · cases hs
    exact ⟨h.exact.same rfl le_rfl le_rfl, h.reading, h.leaving, nofun, h.joined, h.writing,
      h.written⟩

/-- A call of the session's side moves the phase of a started channel only. -/
theorem Orderly.phased (h : Orderly w) {c : JobChannel} (hx : Exact c)
    (hp : c.ended = w.channel.ended ∧ c.connection = w.channel.connection ∧ (c.phase = w.channel.phase ∨
      (w.channel.phase ≠ .stopped ∧ c.phase ≠ .idle ∧ c.phase ≠ .stopped))) :
    Orderly { w with channel := c } := by
  obtain ⟨hended, hconn, hsame | ⟨hold, hi, hst⟩⟩ := hp
  · exact h.call hx ⟨hsame, hended, hconn⟩ rfl rfl rfl fun _ _ hmem => hmem
  · refine ⟨hx, fun hr => ⟨⟨hi, hst⟩, ?_⟩, fun hl => ?_, fun hd => ?_,
      fun hq => absurd hq (not_or.2 ⟨hi, hst⟩), fun f hf => ?_, h.written⟩
    · exact hended.trans (h.reading hr).2
    · exact hended.trans (h.leaving hl)
    · exact absurd (h.delivering hd) hold
    · exact (h.writing f hf).trans hconn.symm

/-- **Every step keeps the invariant.** -/
theorem Orderly.step {a : Action} (h : Orderly w) (hs : w.step a = some w') : Orderly w' := by
  cases a with
  | start isOpen jobClasses threads => exact h.start hs
  | admitJobs =>
    cases hs
    exact h.phased h.exact.admitJobs w.channel.admitJobs_phase
  | closeAdmission =>
    cases hs
    exact h.phased h.exact.closeAdmission w.channel.closeAdmission_phase
  | retire =>
    cases hs
    exact h.call (h.exact.same rfl le_rfl le_rfl) ⟨rfl, rfl, rfl⟩ rfl rfl rfl fun _ _ hmem => hmem
  | setEventSink isNull =>
    cases hs
    have hc := JobChannel.connected_setEventSink (c := w.channel) isNull
    refine h.call ?_ hc rfl rfl rfl fun _ _ hmem => hmem
    show Exact (w.channel.setEventSink isNull).1
    unfold JobChannel.setEventSink
    split_ifs
    · exact h.exact
    · exact h.exact
    · exact h.exact.same rfl le_rfl le_rfl
  | detachBegin =>
    cases hs
    exact h.call (h.exact.same rfl le_rfl le_rfl) ⟨rfl, rfl, rfl⟩ rfl rfl rfl fun _ _ hmem => hmem
  | detachEnd =>
    unfold World.step at hs
    dsimp only at hs
    split_ifs at hs
    cases hs
    have hx : Exact { w.channel with sink := false } := h.exact.same rfl le_rfl le_rfl
    exact h.reply hx ⟨rfl, rfl, rfl⟩ [.detached] (by simp)
  | submit job window encoded =>
    cases hs
    have hc := JobChannel.connected_submit (c := w.channel) job window encoded
    refine h.reply (h.exact.submit job window encoded) ⟨hc.phase, hc.ended, hc.connection⟩ _ fun f n => ?_
    split <;> simp
  | cancel jobId encoded =>
    cases hs
    refine h.reply (h.exact.cancel jobId encoded) (JobChannel.connected_cancel _ _) _ fun f n => ?_
    split <;> simp
  | releaseSession key generation encoded =>
    cases hs
    refine h.reply (h.exact.releaseSession key generation encoded)
      (JobChannel.connected_releaseSession _ _ _) _ fun f n => ?_
    split <;> simp
  | exchange messageId encoded =>
    have hc := JobChannel.connected_exchange (c := w.channel) messageId encoded
    unfold World.step at hs
    dsimp only at hs
    split at hs <;> cases hs
    · exact h.call (h.exact.exchange messageId encoded) hc rfl rfl rfl fun _ _ hmem => hmem
    · exact h.call (h.exact.exchange messageId encoded) hc rfl rfl rfl fun _ _ hmem => hmem
  | exchangeWake ticket =>
    have hc := JobChannel.connected_exchangeWake (c := w.channel) ticket
    unfold World.step at hs
    dsimp only at hs
    split_ifs at hs
    cases hs
    exact h.call (h.exact.exchangeWake ticket) hc rfl rfl rfl fun _ _ hmem => hmem
  | probeHealth encoded =>
    have hc := JobChannel.connected_probeHealth (c := w.channel) encoded
    unfold World.step at hs
    dsimp only at hs
    split at hs <;> cases hs
    · exact h.call (h.exact.probeHealth encoded) hc rfl rfl rfl fun _ _ hmem => hmem
    · exact h.call (h.exact.probeHealth encoded) hc rfl rfl rfl fun _ _ hmem => hmem
  | probeWake probe =>
    have hc := JobChannel.connected_probeWake (c := w.channel) probe
    unfold World.step at hs
    dsimp only at hs
    split_ifs at hs
    cases hs
    exact h.call (h.exact.probeWake probe) hc rfl rfl rfl fun _ _ hmem => hmem
  | drawMessageId =>
    cases hs
    exact h.call (h.exact.same rfl (Nat.le_succ _) le_rfl) ⟨rfl, rfl, rfl⟩ rfl rfl rfl fun _ _ hmem => hmem
  | readFrame content publication frame health =>
    unfold World.step at hs
    dsimp only at hs
    split_ifs at hs with hr
    rw [not_or, ne_eq, not_not] at hr
    split at hs <;> cases hs
    · exact h.endConnection hr.1 _
    · exact h.route _ _ _ _
  | readError error =>
    unfold World.step at hs
    dsimp only at hs
    split_ifs at hs with hr
    rw [not_or, ne_eq, not_not] at hr
    cases hs
    exact h.endConnection hr.1 _
  | callSink =>
    unfold World.step at hs
    dsimp only at hs
    split at hs <;> cases hs
    refine h.call h.exact ⟨rfl, rfl, rfl⟩ rfl rfl rfl fun f n hmem => ?_
    rcases List.mem_append.1 hmem with hmem | hmem
    · exact hmem
    · simp at hmem
  | delivered =>
    unfold World.step at hs
    dsimp only at hs
    split at hs <;> cases hs
    exact h.call (h.exact.same rfl le_rfl le_rfl) ⟨rfl, rfl, rfl⟩ rfl rfl rfl fun _ _ hmem => hmem
  | takeFrame => exact h.takeFrame hs
  | writerLeaves =>
    unfold World.step at hs
    dsimp only at hs
    split_ifs at hs
    cases hs
    exact ⟨h.exact, h.reading, h.leaving, h.delivering, fun _ => rfl, nofun, h.written⟩
  | writeDone =>
    unfold World.step at hs
    dsimp only at hs
    split at hs
    · next f hf =>
      cases hs
      refine ⟨h.exact, h.reading, h.leaving, h.delivering, fun hq => ?_, nofun, h.written⟩
      have hoff := h.joined hq
      rw [hf] at hoff
      cases hoff
    · cases hs
  | writeFailed error =>
    unfold World.step at hs
    dsimp only at hs
    split at hs <;> cases hs
    exact ⟨h.exact.same rfl le_rfl le_rfl, h.reading, h.leaving, h.delivering, fun _ => rfl, nofun,
      h.written⟩
  | stopBegin reason => exact h.stopBegin hs
  | stopJoined => exact h.stopJoined hs
  | stopReturns =>
    unfold World.step at hs
    dsimp only at hs
    split_ifs at hs
    cases hs
    refine ⟨h.exact, h.reading, h.leaving, nofun, h.joined, h.writing, fun f n hmem => ?_⟩
    rcases List.mem_append.1 hmem with hmem | hmem
    · exact h.written f n hmem
    · simp at hmem

end

/-- A channel that was never started. -/
def fresh (manager : Bool) : World := { channel := { manager := manager } }

theorem orderly_fresh (manager : Bool) : Orderly (fresh manager) where
  exact :=
    { job := fun hj => by simp [fresh] at hj
      serials := fun hj => by simp [fresh] at hj
      ended := nofun
      quiet := fun _ => ⟨fun _ => Table.getElem?_empty, fun _ => Table.getElem?_empty, rfl, rfl, rfl⟩
      owned := nofun
      once := List.nodup_nil
      current := nofun
      fewJobs := Nat.zero_le _
      fewReleases := Nat.zero_le _
      named := fun id j => by simp [fresh]
      names := List.nodup_nil
      drawn := nofun
      found := rfl }
  reading := nofun
  leaving := nofun
  delivering := nofun
  joined := fun _ => rfl
  writing := nofun
  written := nofun

theorem orderly_run {manager : Bool} {w : World} (hrun : Run World.step Free (fresh manager) w) :
    Orderly w :=
  hrun.invariant (orderly_fresh manager) fun _ _ _ h _ hs => h.step hs

/-- **The queue is exact**: in every state of every run each frame that waits
belongs to a record that stands, one of each kind for each record, so that
they are few; the message ids are those of the jobs in the table, so that no
refusal finds a job missing; a stop returns with the queue empty, and no
frame is written on a later connection than its own. -/
theorem outbox_exact {manager : Bool} {w : World}
    (hrun : Run World.step Free (fresh manager) w) :
    ((∀ f ∈ w.channel.outbox, Owned w.channel f) ∧
        (w.channel.outbox.map QueuedFrame.record).Nodup ∧
        w.channel.outbox.length ≤ kMaxQueuedFrames) ∧
      ((∀ id j, (id, j) ∈ w.channel.messageJobs ↔
          ∃ job, w.channel.jobs[j]? = some job ∧ job.IsNamed id) ∧
        (w.channel.messageJobs.map Prod.fst).Nodup ∧ w.channel.missingJob = false) ∧
      (∀ w', w.step .stopReturns = some w' → w'.channel.outbox = []) ∧
      (∀ reason w', w.step (.stopBegin reason) = some w' → w'.stopper = .idle →
        w'.channel.outbox = []) ∧
      ∀ f n, .written f n ∈ w.history → f.connection = n := by
  have h := orderly_run hrun
  refine ⟨⟨h.exact.owned, h.exact.once, h.exact.length_outbox⟩,
    ⟨h.exact.named, h.exact.names, h.exact.found⟩, fun w' hs => ?_, fun reason w' hs hidle => ?_,
    h.written⟩
  · have h' := h.step hs
    unfold World.step at hs
    dsimp only at hs
    split_ifs at hs with hd
    cases hs
    exact h.exact.outbox_quiet (.inr (h.delivering hd.1))
  · unfold World.step JobChannel.stopBegin at hs
    dsimp only at hs
    split_ifs at hs with hi hq
    · cases hs
      exact h.exact.outbox_quiet hq
    · cases hs
      cases hidle

/-- An exchange waits on the first connection. -/
theorem outbox_exact_exchange : ∃ w, Run World.step Free (fresh true) w ∧
    w.channel.outbox = [⟨.exchange, 0, 1⟩] ∧ w.channel.outbox.length ≤ kMaxQueuedFrames := by
  have hrun : Run World.step Free (fresh true) _ := Run.of_exec (rfl : exec World.step (fresh true)
    [.start true [.sttDecode] true, .admitJobs, .exchange "unload" none] = some _)
  exact ⟨_, hrun, rfl, (outbox_exact hrun).1.2.2⟩

end Channel

end Tensorplate
