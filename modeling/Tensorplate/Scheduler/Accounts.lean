import Mathlib.Data.List.Perm.Basic
import Mathlib.Data.List.Perm.Subperm
import Mathlib.Data.List.Range
import Tensorplate.Scheduler.Model.FifoScheduler

/-!
# The scheduler's accounts

Where every request is: refused, queued, expired, cancelled in the queue,
dispatched, and then in flight, completed or cancelled in flight. A ledger
is kept from the events, and the queue, the table of requests in flight and
the counters agree with it. A function that takes requests out one after
another is followed with the requests it still holds, `loose` from the queue
and `running` from the table.
-/

namespace Tensorplate

namespace Scheduler

/-! ## The ledger -/

/-- What the events tell: the numbers of the requests each kind was about,
in order. -/
structure Ledger where
  admitted : List ℕ := []
  rejected : List ℕ := []
  dispatched : List ℕ := []
  expired : List ℕ := []
  cancelledQueued : List ℕ := []
  cancelledInFlight : List ℕ := []
  succeeded : List ℕ := []
  failed : List ℕ := []

/-- One event is entered. -/
def Ledger.enter (l : Ledger) : SchedulerEvent → Ledger
  | .admitted n _ => { l with admitted := l.admitted ++ [n] }
  | .admissionRejected n _ _ _ => { l with rejected := l.rejected ++ [n] }
  | .dispatched n _ _ => { l with dispatched := l.dispatched ++ [n] }
  | .completed n .success _ _ => { l with succeeded := l.succeeded ++ [n] }
  | .completed n .failure _ _ => { l with failed := l.failed ++ [n] }
  | .cancelledQueued n _ _ _ => { l with cancelledQueued := l.cancelledQueued ++ [n] }
  | .cancelledInFlight n _ _ => { l with cancelledInFlight := l.cancelledInFlight ++ [n] }
  | .expired n _ _ => { l with expired := l.expired ++ [n] }
  | .pressure _ _ _ => l

/-- The ledger of a list of events. -/
def ledger (events : List SchedulerEvent) : Ledger := events.foldl Ledger.enter {}

theorem ledger_concat (events : List SchedulerEvent) (e : SchedulerEvent) :
    ledger (events ++ [e]) = (ledger events).enter e := by
  unfold ledger
  rw [List.foldl_append]
  rfl

/-- The numbers of queued requests. -/
def numbers (queue : List SchedulerRequest) : List ℕ := queue.map SchedulerRequest.number

/-- **The accounts**, with the requests that were taken out of the queue
(`loose`) and of the table (`running`) and whose event is still to come. -/
structure Accounted (s : FifoScheduler) (l : Ledger) (loose : List SchedulerRequest)
    (running : List InFlightRecord) : Prop where
  queued : s.queue.length ≤ s.config.queueCapacity
  flying : s.inFlight.length + running.length ≤ s.config.inFlightCapacity
  ids : (s.queue.map SchedulerRequest.requestId ++ (s.inFlight.map InFlightRecord.requestId ++
    (running.map InFlightRecord.requestId ++ s.cancelledInFlightIds))).Nodup
  offered : (l.admitted ++ l.rejected).Perm (List.range s.offered)
  ascending : l.admitted.Pairwise (· < ·)
  admitted : l.admitted.Perm (l.dispatched ++ (l.expired ++ (l.cancelledQueued ++
    (numbers s.queue ++ numbers loose))))
  order : (l.dispatched ++ numbers s.queue).Sublist l.admitted
  dispatched : l.dispatched.Perm (l.succeeded ++ (l.failed ++ (l.cancelledInFlight ++
    (s.inFlight.map InFlightRecord.number ++ running.map InFlightRecord.number))))
  released : s.released.Perm
    (if s.bufferManager then l.rejected ++ (l.expired ++ l.cancelledQueued) else [])
  admittedTotal : s.metrics.admittedTotal = l.admitted.length
  expiredTotal : s.metrics.expiredTotal = l.expired.length
  cancelledQueued : s.metrics.cancelledQueued = l.cancelledQueued.length
  cancelledInFlight : s.metrics.cancelledInFlight = l.cancelledInFlight.length
  completedSuccess : s.metrics.completedSuccess = l.succeeded.length
  completedFailure : s.metrics.completedFailure = l.failed.length
  shut : s.shutdownCalled = true → s.queue = []

/-- What the accounts read of a scheduler. -/
def FifoScheduler.books (s : FifoScheduler) :=
  (s.config, s.bufferManager, s.queue, s.inFlight, s.cancelledInFlightIds, s.shutdownCalled,
    s.offered, s.released, s.metrics.admittedTotal, s.metrics.expiredTotal,
    s.metrics.cancelledQueued, s.metrics.cancelledInFlight, s.metrics.completedSuccess,
    s.metrics.completedFailure)

section

variable {s s' : FifoScheduler} {l : Ledger} {loose : List SchedulerRequest}
variable {running : List InFlightRecord}

theorem Accounted.same (h : Accounted s l loose running) (hb : s'.books = s.books) :
    Accounted s' l loose running := by
  simp only [FifoScheduler.books, Prod.mk.injEq] at hb
  obtain ⟨h₁, h₂, h₃, h₄, h₅, h₆, h₈, h₉, m₁, m₂, m₃, m₄, m₅, m₆⟩ := hb
  refine ⟨?_, ?_, ?_, ?_, h.ascending, ?_, ?_, ?_, ?_, ?_, ?_, ?_, ?_, ?_, ?_, ?_⟩
  · rw [h₃, h₁]
    exact h.queued
  · rw [h₄, h₁]
    exact h.flying
  · rw [h₃, h₄, h₅]
    exact h.ids
  · rw [h₈]
    exact h.offered
  · rw [h₃]
    exact h.admitted
  · rw [h₃]
    exact h.order
  · rw [h₄]
    exact h.dispatched
  · rw [h₉, h₂]
    exact h.released
  · rw [m₁]
    exact h.admittedTotal
  · rw [m₂]
    exact h.expiredTotal
  · rw [m₃]
    exact h.cancelledQueued
  · rw [m₄]
    exact h.cancelledInFlight
  · rw [m₅]
    exact h.completedSuccess
  · rw [m₆]
    exact h.completedFailure
  · rw [h₆, h₃]
    exact h.shut

/-! ## Moves -/

/-- The list of given back buffers with one request more. -/
def givenBack (bufferManager : Bool) (released : List ℕ) (n : ℕ) : List ℕ :=
  if bufferManager then released ++ [n] else released

/-- Giving buffers back changes nothing else. -/
theorem releaseRequestBuffers_eq (s : FifoScheduler) (n : ℕ) : s.releaseRequestBuffers n =
    { s with released := givenBack s.bufferManager s.released n } := by
  unfold FifoScheduler.releaseRequestBuffers givenBack
  split_ifs <;> rfl

theorem givenBack_perm {bufferManager : Bool} {released due due' : List ℕ} {n : ℕ}
    (h : released.Perm (if bufferManager then due else [])) (hdue : (due ++ [n]).Perm due') :
    (givenBack bufferManager released n).Perm (if bufferManager then due' else []) := by
  unfold givenBack
  cases bufferManager with
  | true => exact (h.append_right [n]).trans hdue
  | false => exact h

/-- A request is refused: it is numbered, and its buffers go back. -/
theorem Accounted.refuse (h : Accounted s l [] []) (code : ErrorCode) (message : String)
    (severity : Option PressureSeverity) (now : ℤ) :
    Accounted (FifoScheduler.refuse { s with offered := s.offered + 1 } s.offered code message
      severity now).1 (l.enter (.admissionRejected s.offered code severity now)) [] [] := by
  unfold FifoScheduler.refuse FifoScheduler.emit
  rw [releaseRequestBuffers_eq]
  exact
    { h with
      offered := by
        show (l.admitted ++ (l.rejected ++ [s.offered])).Perm (List.range (s.offered + 1))
        rw [List.range_succ, ← List.append_assoc]
        exact h.offered.append_right _
      released := by
        refine givenBack_perm h.released ?_
        show (l.rejected ++ (l.expired ++ l.cancelledQueued) ++ [s.offered]).Perm
          (l.rejected ++ [s.offered] ++ (l.expired ++ l.cancelledQueued))
        rw [List.append_assoc, List.append_assoc l.rejected [s.offered]]
        exact List.Perm.append_left _ List.perm_append_comm }

/-- A request is queued. -/
theorem Accounted.push (h : Accounted s l [] []) {r : SchedulerRequest} (now : ℤ)
    (hshut : s.shutdownCalled = false) (hnew : s.requestIdActive r.requestId = false)
    (hroom : s.queue.length < s.config.queueCapacity) (hn : r.number = s.offered) :
    Accounted { s with
        offered := s.offered + 1
        queue := s.queue ++ [r]
        metrics := { s.metrics with admittedTotal := s.metrics.admittedTotal + 1 } }
      (l.enter (.admitted s.offered now)) [] [] := by
  have hbelow : ∀ n ∈ l.admitted, n < s.offered := by
    intro n hmem
    have := h.offered.subset (List.mem_append_left _ hmem)
    exact List.mem_range.1 this
  exact
    { h with
      queued := by
        show (s.queue ++ [r]).length ≤ s.config.queueCapacity
        rw [List.length_append, List.length_singleton]
        omega
      ids := by
        have hactive := hnew
        unfold FifoScheduler.requestIdActive at hactive
        simp only [Bool.or_eq_false_iff, List.any_eq_false, decide_eq_true_eq,
          List.contains_eq_mem, decide_eq_false_iff_not] at hactive
        obtain ⟨⟨hq, hf⟩, ht⟩ := hactive
        show ((s.queue ++ [r]).map SchedulerRequest.requestId ++ _).Nodup
        rw [List.map_append, List.append_assoc, List.map_singleton]
        refine (List.perm_append_comm_assoc _ [r.requestId] _).nodup_iff.2 ?_
        rw [List.singleton_append, List.nodup_cons]
        refine ⟨?_, h.ids⟩
        simp only [List.mem_append, List.mem_map, List.map_nil, List.not_mem_nil, false_or, not_or,
          not_exists, not_and]
        exact ⟨fun q hq' => hq q hq', fun f hf' => hf f hf', ht⟩
      offered := by
        show (l.admitted ++ [s.offered] ++ l.rejected).Perm (List.range (s.offered + 1))
        rw [List.range_succ, List.append_assoc]
        refine List.Perm.trans ?_ (h.offered.append_right [s.offered])
        rw [List.append_assoc]
        exact List.perm_append_comm.append_left _
      ascending := by
        show (l.admitted ++ [s.offered]).Pairwise (· < ·)
        refine List.pairwise_append.2 ⟨h.ascending, List.pairwise_singleton _ _, ?_⟩
        intro a ha b hb
        rw [List.mem_singleton.1 hb]
        exact hbelow a ha
      admitted := by
        show (l.admitted ++ [s.offered]).Perm (l.dispatched ++ (l.expired ++ (l.cancelledQueued ++
          (numbers (s.queue ++ [r]) ++ numbers []))))
        have := h.admitted.append_right [s.offered]
        simp only [numbers, List.map_append, List.map_cons, List.map_nil, List.append_nil, hn,
          List.append_assoc] at this ⊢
        exact this
      order := by
        show (l.dispatched ++ numbers (s.queue ++ [r])).Sublist (l.admitted ++ [s.offered])
        have : numbers (s.queue ++ [r]) = numbers s.queue ++ [s.offered] := by
          simp [numbers, hn]
        rw [this, ← List.append_assoc]
        exact h.order.append (List.Sublist.refl _)
      admittedTotal := by
        show s.metrics.admittedTotal + 1 = (l.admitted ++ [s.offered]).length
        rw [h.admittedTotal, List.length_append, List.length_singleton]
      shut := fun hs => by
        rw [show s.shutdownCalled = true from hs] at hshut
        cases hshut }

/-- A request that left the queue has expired. -/
theorem Accounted.expire {r : SchedulerRequest} (h : Accounted s l (r :: loose) running)
    (wait now : ℤ) :
    Accounted (s.expire (r, wait, now))
      (l.enter (.expired r.number (wait - r.enqueueTime) now)) loose running := by
  unfold FifoScheduler.expire FifoScheduler.emit
  dsimp only
  rw [releaseRequestBuffers_eq]
  exact
    { h with
      admitted := by
        refine h.admitted.trans ?_
        show (l.dispatched ++ (l.expired ++ (l.cancelledQueued ++ (numbers s.queue ++
          (r.number :: numbers loose))))).Perm (l.dispatched ++ (l.expired ++ [r.number] ++
            (l.cancelledQueued ++ (numbers s.queue ++ numbers loose))))
        rw [List.append_assoc, List.singleton_append]
        refine List.Perm.append_left _ (List.Perm.append_left _ ?_)
        rw [← List.append_assoc, ← List.append_assoc]
        exact List.perm_middle
      released := by
        refine givenBack_perm h.released ?_
        show (_ ++ [r.number]).Perm (l.rejected ++ (l.expired ++ [r.number] ++ l.cancelledQueued))
        rw [List.append_assoc, List.append_assoc, List.append_assoc]
        exact List.Perm.append_left _ (List.Perm.append_left _ List.perm_append_comm)
      expiredTotal := by
        show s.metrics.expiredTotal + 1 = (l.expired ++ [r.number]).length
        rw [h.expiredTotal, List.length_append, List.length_singleton] }

/-- A request that left the queue was cancelled. -/
theorem Accounted.cancelQueued {r : SchedulerRequest} (h : Accounted s l (r :: loose) running)
    (reason : CancellationReason) (wait now : ℤ) :
    Accounted (s.cancelQueued r reason wait now)
      (l.enter (.cancelledQueued r.number reason wait now)) loose running := by
  unfold FifoScheduler.cancelQueued FifoScheduler.emit
  dsimp only
  rw [releaseRequestBuffers_eq]
  exact
    { h with
      admitted := by
        refine h.admitted.trans ?_
        show (l.dispatched ++ (l.expired ++ (l.cancelledQueued ++ (numbers s.queue ++
          (r.number :: numbers loose))))).Perm (l.dispatched ++ (l.expired ++
            (l.cancelledQueued ++ [r.number] ++ (numbers s.queue ++ numbers loose))))
        rw [List.append_assoc, List.singleton_append]
        refine List.Perm.append_left _ (List.Perm.append_left _ (List.Perm.append_left _ ?_))
        exact List.perm_middle
      released := by
        refine givenBack_perm h.released ?_
        show (_ ++ [r.number]).Perm (l.rejected ++ (l.expired ++ (l.cancelledQueued ++ [r.number])))
        rw [List.append_assoc, List.append_assoc]
      cancelledQueued := by
        show s.metrics.cancelledQueued + 1 = (l.cancelledQueued ++ [r.number]).length
        rw [h.cancelledQueued, List.length_append, List.length_singleton] }

/-- A request that left the table was cancelled: its id is a tombstone. -/
theorem Accounted.cancelRunning {record : InFlightRecord}
    (h : Accounted s l loose (record :: running)) (reason : CancellationReason) (now : ℤ) :
    Accounted (s.cancelRunning record reason now)
      (l.enter (.cancelledInFlight record.number reason now)) loose running :=
  { h with
    flying := by
      have := h.flying
      rw [List.length_cons] at this
      show s.inFlight.length + running.length ≤ s.config.inFlightCapacity
      omega
    ids := by
      have hids := h.ids
      rw [List.map_cons, List.cons_append] at hids
      refine (List.Perm.nodup_iff ?_).1 hids
      refine List.Perm.append_left _ (List.Perm.append_left _ ?_)
      show (record.requestId :: (running.map InFlightRecord.requestId ++ s.cancelledInFlightIds)).Perm
        (running.map InFlightRecord.requestId ++ (s.cancelledInFlightIds ++ [record.requestId]))
      rw [← List.append_assoc]
      exact (List.perm_append_singleton _ _).symm
    dispatched := by
      refine h.dispatched.trans ?_
      show (l.succeeded ++ (l.failed ++ (l.cancelledInFlight ++ (s.inFlight.map
        InFlightRecord.number ++ (record.number :: running.map InFlightRecord.number))))).Perm
        (l.succeeded ++ (l.failed ++ (l.cancelledInFlight ++ [record.number] ++
          (s.inFlight.map InFlightRecord.number ++ running.map InFlightRecord.number))))
      rw [List.append_assoc, List.singleton_append]
      refine List.Perm.append_left _ (List.Perm.append_left _ (List.Perm.append_left _ ?_))
      exact List.perm_middle
    cancelledInFlight := by
      show s.metrics.cancelledInFlight + 1 = (l.cancelledInFlight ++ [record.number]).length
      rw [h.cancelledInFlight, List.length_append, List.length_singleton] }

/-- A request that left the table has completed. -/
theorem Accounted.complete {record : InFlightRecord} (h : Accounted s l loose (record :: running))
    (status : CompletionStatus) (code : Option ErrorCode) (now : ℤ) :
    Accounted { s with metrics := { s.metrics with
        completedSuccess := match status with
          | .success => s.metrics.completedSuccess + 1
          | .failure => s.metrics.completedSuccess
        completedFailure := match status with
          | .success => s.metrics.completedFailure
          | .failure => s.metrics.completedFailure + 1 } }
      (l.enter (.completed record.number status code now)) loose running := by
  have hflying : s.inFlight.length + running.length ≤ s.config.inFlightCapacity := by
    have := h.flying
    rw [List.length_cons] at this
    omega
  have hids : (s.queue.map SchedulerRequest.requestId ++ (s.inFlight.map InFlightRecord.requestId ++
      (running.map InFlightRecord.requestId ++ s.cancelledInFlightIds))).Nodup := by
    refine h.ids.sublist ?_
    refine List.Sublist.append (List.Sublist.refl _) (List.Sublist.append (List.Sublist.refl _) ?_)
    exact (List.sublist_cons_self _ _).append (List.Sublist.refl _)
  have hnext : (s.inFlight.map InFlightRecord.number ++ (record :: running).map
      InFlightRecord.number).Perm (record.number :: (s.inFlight.map InFlightRecord.number ++
        running.map InFlightRecord.number)) := List.perm_middle
  cases status with
  | success =>
    exact
      { h with
        flying := hflying
        ids := hids
        dispatched := by
          refine h.dispatched.trans ?_
          show List.Perm _ (l.succeeded ++ [record.number] ++ (l.failed ++ (l.cancelledInFlight ++
            (s.inFlight.map InFlightRecord.number ++ running.map InFlightRecord.number))))
          rw [List.append_assoc, List.singleton_append]
          refine List.Perm.append_left _ ?_
          refine (List.Perm.append_left _ ((List.Perm.append_left _ hnext).trans
            List.perm_middle)).trans List.perm_middle
        completedSuccess := by
          show s.metrics.completedSuccess + 1 = (l.succeeded ++ [record.number]).length
          rw [h.completedSuccess, List.length_append, List.length_singleton] }
  | failure =>
    exact
      { h with
        flying := hflying
        ids := hids
        dispatched := by
          refine h.dispatched.trans ?_
          show List.Perm _ (l.succeeded ++ (l.failed ++ [record.number] ++ (l.cancelledInFlight ++
            (s.inFlight.map InFlightRecord.number ++ running.map InFlightRecord.number))))
          rw [List.append_assoc, List.singleton_append]
          refine List.Perm.append_left _ (List.Perm.append_left _ ?_)
          exact (List.Perm.append_left _ hnext).trans List.perm_middle
        completedFailure := by
          show s.metrics.completedFailure + 1 = (l.failed ++ [record.number]).length
          rw [h.completedFailure, List.length_append, List.length_singleton] }

/-- The head of the queue is dispatched. -/
theorem Accounted.dispatch {head : SchedulerRequest} {rest : List SchedulerRequest}
    (h : Accounted s l [] []) (hq : s.queue = head :: rest)
    (hroom : s.inFlight.length < s.config.inFlightCapacity) (wait now : ℤ) :
    Accounted { s with
        queue := rest
        inFlight := s.inFlight ++
          [⟨head.requestId, head.endpoint, head.backendName, head.modelId, head.number⟩] }
      (l.enter (.dispatched head.number wait now)) [] [] :=
  { h with
    queued := by
      have := h.queued
      rw [hq, List.length_cons] at this
      show rest.length ≤ s.config.queueCapacity
      omega
    flying := by
      show (s.inFlight ++ [_]).length + 0 ≤ s.config.inFlightCapacity
      rw [List.length_append, List.length_singleton]
      omega
    ids := by
      have hids := h.ids
      rw [hq, List.map_cons, List.cons_append] at hids
      refine (List.Perm.nodup_iff ?_).1 hids
      show List.Perm _ (rest.map SchedulerRequest.requestId ++ ((s.inFlight ++ [_]).map
        InFlightRecord.requestId ++ _))
      rw [List.map_append, List.map_singleton, List.append_assoc, List.singleton_append]
      refine List.Perm.trans List.perm_middle.symm (List.Perm.append_left _ ?_)
      exact List.perm_middle.symm
    admitted := by
      refine h.admitted.trans ?_
      rw [hq]
      show (l.dispatched ++ (l.expired ++ (l.cancelledQueued ++ (head.number :: (numbers rest ++
        []))))).Perm (l.dispatched ++ [head.number] ++ (l.expired ++ (l.cancelledQueued ++
          (numbers rest ++ []))))
      rw [List.append_assoc, List.singleton_append]
      refine List.Perm.append_left _ ?_
      exact (List.Perm.append_left _ List.perm_middle).trans List.perm_middle
    order := by
      have horder := h.order
      rw [hq] at horder
      show (l.dispatched ++ [head.number] ++ numbers rest).Sublist l.admitted
      rw [List.append_assoc]
      exact horder
    dispatched := by
      show (l.dispatched ++ [head.number]).Perm (l.succeeded ++ (l.failed ++ (l.cancelledInFlight ++
        ((s.inFlight ++ [_]).map InFlightRecord.number ++ []))))
      have := h.dispatched.append_right [head.number]
      simp only [List.map_append, List.map_cons, List.map_nil, List.append_nil,
        List.append_assoc] at this ⊢
      exact this
    shut := fun hs => by
      have := h.shut hs
      rw [hq] at this
      cases this }

end

end Scheduler

end Tensorplate
