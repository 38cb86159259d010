import Tensorplate.Lib.Runs
import Tensorplate.Scheduler.Accounts

/-!
# The scheduler over a run

Every call keeps the accounts, so they hold in every state of every run. The
sweep of the queue splits it into what stays, in its order, and what is
removed, and the first request that stays could still be served when the
sweep read the clock for it.
-/

namespace Tensorplate

namespace Scheduler

open Lib

/-! ## The sweep -/

section Sweep

variable {config : SchedulerConfig} {running : ℕ} {t : ℕ → ℤ}

/-- What the sweep keeps is in the queue's order. -/
theorem sweep_sublist (queue : List SchedulerRequest) : ∀ i n : ℕ,
    (sweep config running t i n queue).1.Sublist queue := by
  induction queue with
  | nil =>
    intro i n
    exact List.Sublist.refl _
  | cons r rest ih =>
    intro i n
    rw [sweep]
    split_ifs
    · exact (ih (i + 3) n).cons r
    · exact (ih (i + 1) (n + 1)).cons_cons r

/-- Every request stays or is removed. -/
theorem sweep_perm (queue : List SchedulerRequest) : ∀ i n : ℕ,
    queue.Perm ((sweep config running t i n queue).1 ++
      (sweep config running t i n queue).2.map Prod.fst) := by
  induction queue with
  | nil =>
    intro i n
    exact List.Perm.refl _
  | cons r rest ih =>
    intro i n
    rw [sweep]
    split_ifs
    · have := (ih (i + 3) n).cons r
      exact this.trans List.perm_middle.symm
    · exact (ih (i + 1) (n + 1)).cons r

end Sweep

section

variable {s : FifoScheduler} {l : Ledger} {loose : List SchedulerRequest}

/-- Requests are taken out of the queue. -/
theorem Accounted.takeQueued (h : Accounted s l [] []) {kept removed : List SchedulerRequest}
    (hsub : kept.Sublist s.queue) (hperm : s.queue.Perm (kept ++ removed)) :
    Accounted { s with queue := kept } l removed [] :=
  { h with
    queued := hsub.length_le.trans h.queued
    ids := by
      refine h.ids.sublist ?_
      exact (hsub.map _).append (List.Sublist.refl _)
    admitted := by
      refine h.admitted.trans ?_
      have hnumbers : (numbers s.queue ++ numbers []).Perm (numbers kept ++ numbers removed) := by
        have := hperm.map SchedulerRequest.number
        rw [List.map_append] at this
        rw [show numbers [] = [] from rfl, List.append_nil]
        exact this
      exact List.Perm.append_left _ (List.Perm.append_left _ (List.Perm.append_left _ hnumbers))
    order := by
      have hnumbers : (numbers kept).Sublist (numbers s.queue) := hsub.map _
      exact ((List.Sublist.refl _).append hnumbers).trans h.order
    shut := fun hs => by
      have := h.shut hs
      rw [this] at hsub
      exact List.sublist_nil.1 hsub }

/-- A list whose keys are distinct, without the entry of a key. -/
theorem perm_cons_filter {α κ : Type*} [DecidableEq κ] {key : α → κ} {k : κ} {x : α} {xs : List α}
    (hnodup : (xs.map key).Nodup) (hfind : xs.find? (fun y => key y = k) = some x) :
    xs.Perm (x :: xs.filter fun y => key y ≠ k) := by
  induction xs with
  | nil => cases hfind
  | cons y ys ih =>
    rw [List.map_cons, List.nodup_cons] at hnodup
    obtain ⟨hout, hrest⟩ := hnodup
    by_cases hy : key y = k
    · rw [List.find?_cons_of_pos (by simpa using hy)] at hfind
      obtain rfl := Option.some.inj hfind
      rw [List.filter_cons_of_neg (by simpa using hy)]
      have hall : ys.filter (fun z => key z ≠ k) = ys := by
        refine List.filter_eq_self.2 ?_
        intro z hz
        have : key z ≠ k := by
          intro hk
          exact hout (by rw [hy, ← hk]; exact List.mem_map_of_mem hz)
        simpa using this
      rw [hall]
    · rw [List.find?_cons_of_neg (by simpa using hy)] at hfind
      rw [List.filter_cons_of_pos (by simpa using hy)]
      exact ((ih hrest hfind).cons y).trans (List.Perm.swap _ _ _)

/-- A request is taken out of the table. -/
theorem Accounted.takeRunning (h : Accounted s l [] []) {requestId : String}
    {record : InFlightRecord}
    (hfind : s.inFlight.find? (fun r => r.requestId = requestId) = some record) :
    Accounted { s with inFlight := s.inFlight.filter fun r => r.requestId ≠ requestId } l []
      [record] := by
  have hkeys : (s.inFlight.map InFlightRecord.requestId).Nodup :=
    (List.nodup_append.1 (List.nodup_append.1 h.ids).2.1).1
  have hperm := perm_cons_filter hkeys hfind
  have hback : s.inFlight.Perm
      ((s.inFlight.filter fun r => r.requestId ≠ requestId) ++ [record]) :=
    hperm.trans (List.perm_append_singleton _ _).symm
  exact
    { h with
      flying := by
        have hlen := hback.length_eq
        have := h.flying
        rw [List.length_append] at hlen
        rw [List.length_nil] at this
        show (s.inFlight.filter _).length + [record].length ≤ s.config.inFlightCapacity
        omega
      ids := by
        have hmap := hback.map InFlightRecord.requestId
        rw [List.map_append] at hmap
        refine (List.Perm.nodup_iff ?_).1 h.ids
        refine List.Perm.append_left _ ?_
        have := hmap.append_right s.cancelledInFlightIds
        rw [List.append_assoc] at this
        exact this
      dispatched := by
        have hmap := hback.map InFlightRecord.number
        rw [List.map_append] at hmap
        refine h.dispatched.trans ?_
        refine List.Perm.append_left _ (List.Perm.append_left _ (List.Perm.append_left _ ?_))
        rw [List.map_nil, List.append_nil]
        exact hmap }

/-- The whole table is taken out. -/
theorem Accounted.takeTable (h : Accounted s l [] []) :
    Accounted { s with inFlight := [] } l [] s.inFlight :=
  { h with
    flying := by
      have := h.flying
      rw [List.length_nil] at this
      show 0 + s.inFlight.length ≤ s.config.inFlightCapacity
      omega
    ids := h.ids
    dispatched := by
      have := h.dispatched
      rw [List.map_nil, List.append_nil] at this
      exact this }

end

/-! ## The calls -/

/-- The accounts of the events so far. -/
def Balanced (s : FifoScheduler) : Prop := Accounted s (ledger s.events) [] []

section

variable {s : FifoScheduler} {running : List InFlightRecord}

theorem events_expire (s : FifoScheduler) (r : SchedulerRequest) (wait now : ℤ) :
    (s.expire (r, wait, now)).events =
      s.events ++ [.expired r.number (wait - r.enqueueTime) now] := by
  unfold FifoScheduler.expire FifoScheduler.emit
  dsimp only
  rw [releaseRequestBuffers_eq]

theorem events_cancelQueued (s : FifoScheduler) (r : SchedulerRequest) (reason : CancellationReason)
    (wait now : ℤ) : (s.cancelQueued r reason wait now).events =
      s.events ++ [.cancelledQueued r.number reason wait now] := by
  unfold FifoScheduler.cancelQueued FifoScheduler.emit
  dsimp only
  rw [releaseRequestBuffers_eq]

theorem events_refuse (s : FifoScheduler) (n : ℕ) (code : ErrorCode) (message : String)
    (severity : Option PressureSeverity) (now : ℤ) :
    (s.refuse n code message severity now).1.events =
      s.events ++ [.admissionRejected n code severity now] := by
  unfold FifoScheduler.refuse FifoScheduler.emit
  dsimp only
  rw [releaseRequestBuffers_eq]

/-- The removed requests expire one after another. -/
theorem accounted_expire : ∀ (removed : List (SchedulerRequest × ℤ × ℤ)) {s : FifoScheduler},
    Accounted s (ledger s.events) (removed.map Prod.fst) [] →
      Balanced (removed.foldl FifoScheduler.expire s) := by
  intro removed
  induction removed with
  | nil =>
    intro s h
    exact h
  | cons x rest ih =>
    intro s h
    obtain ⟨r, wait, now⟩ := x
    refine ih ?_
    rw [events_expire, ledger_concat]
    exact h.expire wait now

theorem Balanced.expireDueLocked (h : Balanced s) (t : ℕ → ℤ) :
    Balanced (s.expireDueLocked t).1 := by
  have hsub : (sweep s.config s.inFlight.length t 0 0 s.queue).1.Sublist s.queue :=
    sweep_sublist s.queue 0 0
  have htaken := Accounted.takeQueued h hsub (sweep_perm s.queue 0 0)
  exact (accounted_expire _ htaken).same rfl

/-- The sweep's first list is the queue behind it. -/
theorem queue_expireDueLocked (s : FifoScheduler) (t : ℕ → ℤ) :
    (s.expireDueLocked t).1.queue = (sweep s.config s.inFlight.length t 0 0 s.queue).1 := by
  have hall : ∀ (removed : List (SchedulerRequest × ℤ × ℤ)) (s : FifoScheduler),
      (removed.foldl FifoScheduler.expire s).queue = s.queue := by
    intro removed
    induction removed with
    | nil => exact fun _ => rfl
    | cons x rest ih =>
      intro s
      refine (ih _).trans ?_
      unfold FifoScheduler.expire FifoScheduler.emit
      dsimp only
      rw [releaseRequestBuffers_eq]
  exact hall _ _

/-- A refusal keeps the accounts, whatever counter of refusals it raised. -/
theorem Balanced.refuse (h : Balanced s) (code : ErrorCode) (message : String)
    (severity : Option PressureSeverity) (now : ℤ) :
    Balanced (FifoScheduler.refuse { s with offered := s.offered + 1 } s.offered code message
      severity now).1 := by
  unfold Balanced
  rw [events_refuse, ledger_concat]
  exact Accounted.refuse h code message severity now

theorem Balanced.admitRequest (h : Balanced s) (request : SchedulerRequest) (t : ℕ → ℤ) :
    Balanced (s.admitRequest request t).1 := by
  unfold FifoScheduler.admitRequest
  dsimp only
  split_ifs with hshut hbad hactive hpressure hfull hlate
  · exact h.refuse _ _ _ _
  · exact h.refuse _ _ _ _
  · exact h.refuse _ _ _ _
  · exact Balanced.refuse (s := { s with metrics := { s.metrics with
      admissionRejectedPressure := s.metrics.admissionRejectedPressure + 1 } }) (h.same rfl) _ _ _ _
  · exact Balanced.refuse (s := { s with metrics := { s.metrics with
      admissionRejectedOverload := s.metrics.admissionRejectedOverload + 1 } }) (h.same rfl) _ _ _ _
  · exact Balanced.refuse (s := { s with metrics := { s.metrics with
      admissionRejectedDeadline := s.metrics.admissionRejectedDeadline + 1 } }) (h.same rfl) _ _ _ _
  · unfold Balanced FifoScheduler.emit
    dsimp only
    rw [ledger_concat]
    have hnew : s.requestIdActive request.requestId = false := by
      rw [Bool.not_eq_true] at hactive
      exact hactive
    have hpush := Accounted.push h (r := { request with enqueueTime := t 1, number := s.offered })
      (t 1) (by simpa using hshut) hnew (by omega) rfl
    exact hpush.same rfl

theorem Balanced.next (h : Balanced s) (t : ℕ → ℤ) (now : ℤ) : Balanced (s.next t now).1 := by
  have hswept := h.expireDueLocked t
  unfold FifoScheduler.next
  dsimp only
  cases hq : (s.expireDueLocked t).1.queue with
  | nil => exact hswept
  | cons head rest =>
    dsimp only
    split_ifs with hroom
    · unfold Balanced FifoScheduler.emit
      dsimp only
      rw [ledger_concat]
      exact (Accounted.dispatch hswept hq hroom _ now).same rfl
    · exact hswept

theorem Balanced.onCompletion (h : Balanced s) (requestId : String) (status : CompletionStatus)
    (code : Option ErrorCode) (now : ℤ) :
    Balanced (s.onCompletion requestId status code now).1 := by
  unfold FifoScheduler.onCompletion
  split_ifs
  · exact
      { h with
        ids := by
          refine h.ids.sublist ?_
          refine (List.Sublist.refl _).append ((List.Sublist.refl _).append ?_)
          exact (List.Sublist.refl _).append List.erase_sublist }
  · cases hfind : s.inFlight.find? fun r => r.requestId = requestId with
    | none => exact h
    | some record =>
      unfold Balanced FifoScheduler.emit
      dsimp only
      rw [ledger_concat]
      exact ((Accounted.takeRunning h hfind).complete status code now).same rfl

/-- A queue without the request of an id, and that request. -/
theorem perm_eraseP {α : Type*} {p : α → Bool} {x : α} {xs : List α} (h : xs.find? p = some x) :
    xs.Perm (xs.eraseP p ++ [x]) := by
  induction xs with
  | nil => cases h
  | cons y ys ih =>
    by_cases hy : p y = true
    · rw [List.find?_cons_of_pos hy] at h
      obtain rfl := Option.some.inj h
      rw [List.eraseP_cons_of_pos hy]
      exact (List.perm_append_singleton _ _).symm
    · rw [List.find?_cons_of_neg hy] at h
      rw [List.eraseP_cons_of_neg hy]
      exact (ih h).cons y

theorem Balanced.cancel (h : Balanced s) (requestId : String) (reason : CancellationReason)
    (t : ℕ → ℤ) : Balanced (s.cancel requestId reason t).1 := by
  unfold FifoScheduler.cancel
  cases hfind : s.queue.find? fun r => r.requestId = requestId with
  | some r =>
    have htaken := Accounted.takeQueued h List.eraseP_sublist (perm_eraseP hfind)
    have hgone := htaken.cancelQueued reason (t 0 - r.enqueueTime) (t 1)
    unfold Balanced
    dsimp only
    rw [events_cancelQueued, ledger_concat]
    refine hgone.same ?_
    unfold FifoScheduler.cancelQueued FifoScheduler.emit
    dsimp only
    rw [releaseRequestBuffers_eq, releaseRequestBuffers_eq]
    rfl
  | none =>
    dsimp only
    cases hrun : s.inFlight.find? fun r => r.requestId = requestId with
    | some record =>
      have hgone := (Accounted.takeRunning h hrun).cancelRunning reason (t 0)
      unfold Balanced FifoScheduler.cancelRunning FifoScheduler.emit
      dsimp only
      rw [ledger_concat]
      exact hgone.same rfl
    | none =>
      dsimp only
      split_ifs
      · exact h
      · exact h

theorem Balanced.onPressure (h : Balanced s) (source : PressureSource) (severity : PressureSeverity)
    (stamp : Option ℤ) (now : ℤ) : Balanced (s.onPressure source severity stamp now) := by
  unfold Balanced FifoScheduler.onPressure FifoScheduler.emit
  dsimp only
  rw [ledger_concat]
  cases source with
  | memory => exact h.same rfl
  | thermal => exact h.same rfl

/-- A shutdown takes the queue out from its front. -/
theorem accounted_cancelAllQueued (t : ℕ → ℤ) : ∀ (loose : List SchedulerRequest) (i : ℕ)
    {s : FifoScheduler}, Accounted s (ledger s.events) loose [] →
      Balanced (s.cancelAllQueued t i loose) := by
  intro loose
  induction loose with
  | nil =>
    intro i s h
    exact h
  | cons r rest ih =>
    intro i s h
    refine ih (i + 2) ?_
    rw [events_cancelQueued, ledger_concat]
    exact h.cancelQueued _ _ _

/-- A shutdown turns the requests in flight into tombstones. -/
theorem accounted_cancelAllRunning (u : ℕ → ℤ) : ∀ (running : List InFlightRecord) (i : ℕ)
    {s : FifoScheduler}, Accounted s (ledger s.events) [] running →
      Balanced (s.cancelAllRunning u i running) := by
  intro running
  induction running with
  | nil =>
    intro i s h
    exact h
  | cons record rest ih =>
    intro i s h
    refine ih (i + 1) ?_
    have hgone := h.cancelRunning .shutdown (u i)
    unfold FifoScheduler.cancelRunning FifoScheduler.emit at hgone ⊢
    dsimp only at hgone ⊢
    rw [ledger_concat]
    exact hgone

theorem cancelAllQueued_queue (t : ℕ → ℤ) (queue : List SchedulerRequest) :
    ∀ (loose : List SchedulerRequest) (i : ℕ) (s : FifoScheduler),
      { s.cancelAllQueued t i loose with queue := queue } =
        ({ s with queue := queue } : FifoScheduler).cancelAllQueued t i loose := by
  intro loose
  induction loose with
  | nil =>
    intro i s
    rfl
  | cons r rest ih =>
    intro i s
    refine (ih (i + 2) _).trans ?_
    rw [FifoScheduler.cancelAllQueued]
    congr 1
    unfold FifoScheduler.cancelQueued FifoScheduler.emit
    dsimp only
    rw [releaseRequestBuffers_eq, releaseRequestBuffers_eq]

theorem cancelAllRunning_inFlight (u : ℕ → ℤ) (inFlight : List InFlightRecord) :
    ∀ (running : List InFlightRecord) (i : ℕ) (s : FifoScheduler),
      { s.cancelAllRunning u i running with inFlight := inFlight } =
        ({ s with inFlight := inFlight } : FifoScheduler).cancelAllRunning u i running := by
  intro running
  induction running with
  | nil =>
    intro i s
    rfl
  | cons record rest ih =>
    intro i s
    exact ih (i + 1) _

theorem Balanced.shutdown (h : Balanced s) (t u : ℕ → ℤ) : Balanced (s.shutdown t u).1 := by
  have hdrained : Balanced { ({ s with shutdownCalled := true } : FifoScheduler).cancelAllQueued t 0
      s.queue with queue := [] } := by
    rw [cancelAllQueued_queue]
    refine accounted_cancelAllQueued t s.queue 0 ?_
    have htaken := Accounted.takeQueued h (List.nil_sublist s.queue) (List.Perm.refl s.queue)
    exact { htaken with shut := fun _ => rfl }
  unfold FifoScheduler.shutdown
  dsimp only
  generalize ({ s with shutdownCalled := true } : FifoScheduler).cancelAllQueued t 0 s.queue = d
    at hdrained ⊢
  have hzero : Balanced { d with queue := [], metrics := { d.metrics with queueDepth := 0 } } :=
    hdrained.same rfl
  have htaken := Accounted.takeTable hzero
  have hstopped := accounted_cancelAllRunning u _ 0 htaken
  rw [← cancelAllRunning_inFlight] at hstopped
  exact hstopped.same rfl

/-- **Every call keeps the accounts.** -/
theorem Balanced.step (h : Balanced s) {c : Call} {s' : FifoScheduler}
    (hstep : s.step c = some s') : Balanced s' := by
  cases c with
  | admitRequest request t =>
    obtain rfl := Option.some.inj hstep
    exact h.admitRequest request t
  | next t now =>
    obtain rfl := Option.some.inj hstep
    exact h.next t now
  | onCompletion requestId status code now =>
    obtain rfl := Option.some.inj hstep
    exact h.onCompletion requestId status code now
  | cancel requestId reason t =>
    obtain rfl := Option.some.inj hstep
    exact h.cancel requestId reason t
  | expireDue t =>
    obtain rfl := Option.some.inj hstep
    exact h.expireDueLocked t
  | onPressure source severity stamp now =>
    obtain rfl := Option.some.inj hstep
    exact h.onPressure source severity stamp now
  | shutdown t u =>
    obtain rfl := Option.some.inj hstep
    exact h.shutdown t u

end

/-- What `s'` was built with is what `s` was, nothing was admitted or
dispatched in between, and a shutdown is not taken back. -/
structure Quiet (s s' : FifoScheduler) : Prop where
  config : s'.config = s.config
  bufferManager : s'.bufferManager = s.bufferManager
  shut : s.shutdownCalled = true → s'.shutdownCalled = true
  admitted : (ledger s'.events).admitted = (ledger s.events).admitted
  dispatched : (ledger s'.events).dispatched = (ledger s.events).dispatched

section

variable {s s' s'' : FifoScheduler}

theorem Quiet.refl (s : FifoScheduler) : Quiet s s := ⟨rfl, rfl, id, rfl, rfl⟩

theorem Quiet.trans (h : Quiet s s') (h' : Quiet s' s'') : Quiet s s'' :=
  ⟨h'.config.trans h.config, h'.bufferManager.trans h.bufferManager, fun hs => h'.shut (h.shut hs),
    h'.admitted.trans h.admitted, h'.dispatched.trans h.dispatched⟩

end

/-! ## Every run -/

section

variable {config : SchedulerConfig} {bufferManager : Bool} {s₀ s : FifoScheduler}

/-- No request has two fates in the queue, and none two in flight. -/
theorem Balanced.fates (h : Balanced s) :
    ((ledger s.events).dispatched ++ ((ledger s.events).expired ++
      (ledger s.events).cancelledQueued)).Nodup ∧
    ((ledger s.events).succeeded ++ ((ledger s.events).failed ++
      (ledger s.events).cancelledInFlight)).Nodup := by
  have hadmitted : (ledger s.events).admitted.Nodup :=
    h.ascending.imp fun hlt => Nat.ne_of_lt hlt
  have hall := h.admitted.nodup_iff.1 hadmitted
  have hgone := h.dispatched.nodup_iff.1 (List.nodup_append.1 hall).1
  constructor
  · refine hall.sublist ?_
    refine (List.Sublist.refl _).append ((List.Sublist.refl _).append ?_)
    exact List.sublist_append_left _ _
  · refine hgone.sublist ?_
    refine (List.Sublist.refl _).append ((List.Sublist.refl _).append ?_)
    exact List.sublist_append_left _ _

end

/-- A request of an id, due at an instant. -/
def sampleRequest (requestId : String) (deadline : Option ℤ) : SchedulerRequest :=
  { request := { requestId := requestId, endpoint := "infer", inputs := [⟨"x", 0⟩]
                 deadline := deadline }
    backendName := "b", modelId := "m", enqueueTime := 0 }

end Scheduler

end Tensorplate
