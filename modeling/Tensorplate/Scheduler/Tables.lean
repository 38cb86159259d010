import Tensorplate.Scheduler.FifoScheduler

/-!
# The scheduler's tables under one dispatcher

Where one dispatcher takes a request at a time and completes it before the
next, what is in flight is the request in its hand, or the tombstone of its
id. The queue only gives requests away, but for `admit`.
-/

namespace Tensorplate

namespace Scheduler

variable {s s' s'' : FifoScheduler}

/-- **What is in flight is what the dispatcher has in hand**, or its
tombstone. -/
def Runs (s : FifoScheduler) : Option SchedulerRequest → Prop
  | none => s.inFlight = [] ∧ s.cancelledInFlightIds = []
  | some r => (∃ record : InFlightRecord, s.inFlight = [record] ∧ record.requestId = r.requestId ∧
      record.number = r.number ∧ s.cancelledInFlightIds = []) ∨
    s.inFlight = [] ∧ s.cancelledInFlightIds = [r.requestId]

/-- **Nothing was admitted or taken**: the queue gave requests away at
most, and what is in flight may have been cancelled. -/
structure Trimmed (s s' : FifoScheduler) : Prop where
  queue : s'.queue.Sublist s.queue
  offered : s'.offered = s.offered
  runs : ∀ r, Runs s r → Runs s' r

theorem Trimmed.refl (s : FifoScheduler) : Trimmed s s :=
  ⟨List.Sublist.refl _, rfl, fun _ h => h⟩

theorem Trimmed.trans (h : Trimmed s s') (h' : Trimmed s' s'') : Trimmed s s'' :=
  ⟨h'.queue.trans h.queue, h'.offered.trans h.offered, fun r hr => h'.runs r (h.runs r hr)⟩

/-- The tables as they were, but for the queue. -/
theorem Trimmed.of_tables (hq : s'.queue.Sublist s.queue) (ho : s'.offered = s.offered)
    (hf : s'.inFlight = s.inFlight) (hc : s'.cancelledInFlightIds = s.cancelledInFlightIds) :
    Trimmed s s' := by
  refine ⟨hq, ho, fun r hr => ?_⟩
  cases r with
  | none =>
    show s'.inFlight = [] ∧ s'.cancelledInFlightIds = []
    rw [hf, hc]
    exact hr
  | some r =>
    unfold Runs at hr ⊢
    rw [hf, hc]
    exact hr

/-- The numbers, the table in flight and the tombstones. -/
def FifoScheduler.tables (s : FifoScheduler) : ℕ × List InFlightRecord × List String :=
  (s.offered, s.inFlight, s.cancelledInFlightIds)

theorem tables_expire (s : FifoScheduler) (x : SchedulerRequest × ℤ × ℤ) :
    (s.expire x).tables = s.tables := by
  unfold FifoScheduler.expire FifoScheduler.emit FifoScheduler.tables
  dsimp only
  rw [releaseRequestBuffers_eq]

theorem tables_cancelQueued (s : FifoScheduler) (r : SchedulerRequest)
    (reason : CancellationReason) (wait now : ℤ) :
    (s.cancelQueued r reason wait now).tables = s.tables ∧
      (s.cancelQueued r reason wait now).queue = s.queue := by
  unfold FifoScheduler.cancelQueued FifoScheduler.emit FifoScheduler.tables
  dsimp only
  rw [releaseRequestBuffers_eq]
  exact ⟨rfl, rfl⟩

theorem tables_refuse (s : FifoScheduler) (n : ℕ) (code : ErrorCode) (message : String)
    (severity : Option PressureSeverity) (now : ℤ) :
    (s.refuse n code message severity now).1.tables = s.tables ∧
      (s.refuse n code message severity now).1.queue = s.queue := by
  unfold FifoScheduler.refuse FifoScheduler.emit FifoScheduler.tables
  dsimp only
  rw [releaseRequestBuffers_eq]
  exact ⟨rfl, rfl⟩

theorem tables_expireDueLocked (s : FifoScheduler) (t : ℕ → ℤ) :
    (s.expireDueLocked t).1.tables = s.tables := by
  have hall : ∀ (removed : List (SchedulerRequest × ℤ × ℤ)) (s : FifoScheduler),
      (removed.foldl FifoScheduler.expire s).tables = s.tables := by
    intro removed
    induction removed with
    | nil => exact fun _ => rfl
    | cons x rest ih =>
      intro s
      exact (ih _).trans (tables_expire s x)
  exact hall _ _

theorem tables_cancelAllQueued (t : ℕ → ℤ) : ∀ (loose : List SchedulerRequest) (i : ℕ)
    (s : FifoScheduler), (s.cancelAllQueued t i loose).tables = s.tables := by
  intro loose
  induction loose with
  | nil => exact fun _ _ => rfl
  | cons r rest ih =>
    intro i s
    exact (ih (i + 2) _).trans (tables_cancelQueued s r _ _ _).1

/-- What a shutdown does to the tombstones. -/
theorem tombs_cancelAllRunning (u : ℕ → ℤ) : ∀ (running : List InFlightRecord) (i : ℕ)
    (s : FifoScheduler), (s.cancelAllRunning u i running).cancelledInFlightIds =
      s.cancelledInFlightIds ++ running.map InFlightRecord.requestId ∧
      (s.cancelAllRunning u i running).offered = s.offered ∧
      (s.cancelAllRunning u i running).queue = s.queue := by
  intro running
  induction running with
  | nil =>
    intro i s
    exact ⟨(List.append_nil _).symm, rfl, rfl⟩
  | cons record rest ih =>
    intro i s
    obtain ⟨hc, ho, hq⟩ := ih (i + 1) (s.cancelRunning record .shutdown (u i))
    refine ⟨hc.trans ?_, ho, hq⟩
    show s.cancelledInFlightIds ++ [record.requestId] ++ rest.map InFlightRecord.requestId = _
    rw [List.append_assoc, List.singleton_append, List.map_cons]

theorem tables_eq (h : s'.tables = s.tables) :
    s'.offered = s.offered ∧ s'.inFlight = s.inFlight ∧
      s'.cancelledInFlightIds = s.cancelledInFlightIds := by
  unfold FifoScheduler.tables at h
  simp only [Prod.mk.injEq] at h
  exact h

theorem Trimmed.of_tables_eq (hq : s'.queue.Sublist s.queue) (h : s'.tables = s.tables) :
    Trimmed s s' := by
  obtain ⟨ho, hf, hc⟩ := tables_eq h
  exact Trimmed.of_tables hq ho hf hc

/-! ## The calls -/

theorem trimmed_expireDue (s : FifoScheduler) (t : ℕ → ℤ) : Trimmed s (s.expireDue t).1 := by
  refine Trimmed.of_tables_eq ?_ (tables_expireDueLocked s t)
  have hq := queue_expireDueLocked s t
  unfold FifoScheduler.expireDue
  rw [hq]
  exact sweep_sublist s.queue 0 0

theorem trimmed_onPressure (s : FifoScheduler) (source : PressureSource)
    (severity : PressureSeverity) (stamp : Option ℤ) (now : ℤ) :
    Trimmed s (s.onPressure source severity stamp now) :=
  Trimmed.of_tables (List.Sublist.refl _) rfl rfl rfl

/-- The tombstone stands in the place of what was in flight. -/
theorem Runs.bury {r : Option SchedulerRequest} (h : Runs s r) (hf : s'.inFlight = [])
    (hc : s'.cancelledInFlightIds =
      s.cancelledInFlightIds ++ s.inFlight.map InFlightRecord.requestId) : Runs s' r := by
  cases r with
  | none =>
    obtain ⟨hi, ht⟩ := h
    refine ⟨hf, ?_⟩
    rw [hc, hi, ht]
    rfl
  | some r =>
    refine Or.inr ⟨hf, ?_⟩
    rcases h with ⟨record, hi, hid, -, ht⟩ | ⟨hi, ht⟩
    · rw [hc, hi, ht, ← hid]
      rfl
    · rw [hc, hi, ht]
      rfl

theorem trimmed_cancel (s : FifoScheduler) (requestId : String) (reason : CancellationReason)
    (t : ℕ → ℤ) : Trimmed s (s.cancel requestId reason t).1 := by
  unfold FifoScheduler.cancel
  split
  · rename_i r hfind
    obtain ⟨htab, hq⟩ := tables_cancelQueued s r reason (t 0 - r.enqueueTime) (t 1)
    refine Trimmed.of_tables_eq ?_ htab
    dsimp only
    rw [hq]
    exact List.eraseP_sublist
  · split
    · rename_i hnone record hfind
      refine ⟨List.Sublist.refl _, rfl, fun r hr => ?_⟩
      have hmem := List.mem_of_find?_eq_some hfind
      have hid : record.requestId = requestId := by simpa using List.find?_some hfind
      -- A request in flight is all that is in flight.
      have hone : s.inFlight = [record] := by
        cases r with
        | none =>
          rw [hr.1] at hmem
          cases hmem
        | some r =>
          rcases hr with ⟨other, hi, -⟩ | ⟨hi, -⟩
          · rw [hi, List.mem_singleton] at hmem
            rw [hi, hmem]
          · rw [hi] at hmem
            cases hmem
      refine hr.bury ?_ ?_
      · show s.inFlight.filter _ = []
        rw [hone]
        simp [hid]
      · show s.cancelledInFlightIds ++ [record.requestId] = _
        rw [hone]
        rfl
    · split <;> exact Trimmed.refl s

/-- **A cancel takes only requests of its id.** -/
theorem cancel_keeps (s : FifoScheduler) (requestId : String) (reason : CancellationReason)
    (t : ℕ → ℤ) :
    (∀ r ∈ s.queue, r.requestId ≠ requestId → r ∈ (s.cancel requestId reason t).1.queue) ∧
      ((s.cancel requestId reason t).1.cancelledInFlightIds = s.cancelledInFlightIds ∨
        ∃ record ∈ s.inFlight, record.requestId = requestId) := by
  unfold FifoScheduler.cancel
  split
  · rename_i r hfind
    obtain ⟨htab, hq⟩ := tables_cancelQueued s r reason (t 0 - r.enqueueTime) (t 1)
    refine ⟨fun x hx hne => ?_, Or.inl (tables_eq htab).2.2⟩
    dsimp only
    rw [hq]
    exact (List.mem_eraseP_of_neg (by simpa using hne)).2 hx
  · split
    · rename_i record hfind
      refine ⟨fun x hx _ => hx, Or.inr ⟨record, List.mem_of_find?_eq_some hfind, ?_⟩⟩
      simpa using List.find?_some hfind
    · split <;> exact ⟨fun x hx _ => hx, Or.inl rfl⟩

theorem trimmed_shutdown (s : FifoScheduler) (t u : ℕ → ℤ) : Trimmed s (s.shutdown t u).1 := by
  have htab := tables_cancelAllQueued t s.queue 0 { s with shutdownCalled := true }
  unfold FifoScheduler.shutdown
  dsimp only
  generalize ({ s with shutdownCalled := true } : FifoScheduler).cancelAllQueued t 0 s.queue = d
    at htab ⊢
  obtain ⟨ho, hf, hc⟩ := tables_eq htab
  obtain ⟨htomb, hoff, hqueue⟩ := tombs_cancelAllRunning u d.inFlight 0
    { d with queue := [], metrics := { d.metrics with queueDepth := 0 } }
  refine ⟨?_, hoff.trans ho, fun r hr => hr.bury rfl ?_⟩
  · show (FifoScheduler.queue _).Sublist s.queue
    rw [hqueue]
    exact List.nil_sublist _
  · rw [← hc, ← hf]
    exact htomb

/-- The queue behind a shutdown is empty. -/
theorem queue_shutdown (s : FifoScheduler) (t u : ℕ → ℤ) : (s.shutdown t u).1.queue = [] := by
  unfold FifoScheduler.shutdown
  dsimp only
  exact (tombs_cancelAllRunning u _ 0 _).2.2

/-- **`admit` refuses, or queues the request under the next number.** -/
theorem admitRequest_cases (s : FifoScheduler) (request : SchedulerRequest) (t : ℕ → ℤ) :
    (∃ s' error, s.admitRequest request t = (s', .error error) ∧ s'.queue = s.queue ∧
        s'.offered = s.offered + 1 ∧ ∀ r, Runs s r → Runs s' r) ∨
      ∃ s' time, s.admitRequest request t = (s', .ok ()) ∧
        s'.queue = s.queue ++ [{ request with enqueueTime := time, number := s.offered }] ∧
        s'.offered = s.offered + 1 ∧ ∀ r, Runs s r → Runs s' r := by
  have href : ∀ (s₁ : FifoScheduler) (code : ErrorCode) (message : String)
      (severity : Option PressureSeverity) (now : ℤ), s₁.queue = s.queue →
      s₁.tables = (s.offered + 1, s.inFlight, s.cancelledInFlightIds) →
      ∃ s' error, s₁.refuse s.offered code message severity now = (s', .error error) ∧
        s'.queue = s.queue ∧ s'.offered = s.offered + 1 ∧ ∀ r, Runs s r → Runs s' r := by
    intro s₁ code message severity now hq htab
    obtain ⟨htab', hq'⟩ := tables_refuse s₁ s.offered code message severity now
    have hall := htab'.trans htab
    unfold FifoScheduler.tables at hall
    simp only [Prod.mk.injEq] at hall
    obtain ⟨ho, hf, hc⟩ := hall
    refine ⟨_, ⟨code, message, none⟩, rfl, hq'.trans hq, ho, ?_⟩
    have hsame : Trimmed { s with offered := s.offered + 1 }
        (s₁.refuse s.offered code message severity now).1 :=
      Trimmed.of_tables (by rw [hq', hq]) ho hf hc
    exact fun r hr => hsame.runs r hr
  unfold FifoScheduler.admitRequest
  dsimp only
  split_ifs
  · exact Or.inl (href _ _ _ _ _ rfl rfl)
  · exact Or.inl (href _ _ _ _ _ rfl rfl)
  · exact Or.inl (href _ _ _ _ _ rfl rfl)
  · exact Or.inl (href _ _ _ _ _ rfl rfl)
  · exact Or.inl (href _ _ _ _ _ rfl rfl)
  · exact Or.inl (href _ _ _ _ _ rfl rfl)
  · exact Or.inr ⟨_, t 1, rfl, rfl, rfl, fun r hr => hr⟩

/-- **`next` gives nothing, or the first request the sweep left.** -/
theorem next_cases (s : FifoScheduler) (t : ℕ → ℤ) (now : ℤ) :
    ((s.next t now).2 = none ∧ (s.next t now).1 = (s.expireDue t).1) ∨
      ∃ r, (s.next t now).2 = some r ∧ (s.expireDue t).1.queue = r :: (s.next t now).1.queue ∧
        (s.next t now).1.offered = s.offered ∧
        (Runs s none → Runs (s.next t now).1 (some r) ∧
          (s.next t now).1.cancelledInFlightIds = []) := by
  have htrim := trimmed_expireDue s t
  unfold FifoScheduler.next
  change Trimmed s (s.expireDueLocked t).1 at htrim
  change (_ ∧ _ = (s.expireDueLocked t).1) ∨ ∃ r, _ ∧ (s.expireDueLocked t).1.queue = _ ∧ _
  dsimp only
  split
  · exact Or.inl ⟨rfl, rfl⟩
  · rename_i head rest hq
    split_ifs
    · refine Or.inr ⟨head, rfl, hq, htrim.offered, fun hr => ?_⟩
      obtain ⟨hi, hc⟩ := htrim.runs none hr
      refine ⟨Or.inl ⟨⟨head.requestId, head.endpoint, head.backendName, head.modelId, head.number⟩,
        ?_, rfl, rfl, hc⟩, hc⟩
      show (s.expireDueLocked t).1.inFlight ++ [_] = _
      rw [hi]
      rfl
    · exact Or.inl ⟨rfl, rfl⟩

/-- The answer to the completion of a request that was cancelled in
flight. -/
def cancelledInFlightError : Error :=
  ⟨.internal, "scheduler::on_completion: request was cancelled in-flight", none⟩

/-- **`on_completion` for the request in hand empties the table**, and
refuses only a request cancelled in flight. -/
theorem onCompletion_cases {r : SchedulerRequest} (h : Runs s (some r)) (status : CompletionStatus)
    (code : Option ErrorCode) (now : ℤ) :
    Runs (s.onCompletion r.requestId status code now).1 none ∧
      (s.onCompletion r.requestId status code now).1.queue = s.queue ∧
      (s.onCompletion r.requestId status code now).1.offered = s.offered ∧
      ((s.onCompletion r.requestId status code now).2 = .ok () ∧
          s.cancelledInFlightIds = [] ∨
        (s.onCompletion r.requestId status code now).2 = .error cancelledInFlightError ∧
          s.cancelledInFlightIds = [r.requestId]) := by
  unfold FifoScheduler.onCompletion
  rcases h with ⟨record, hi, hid, -, hc⟩ | ⟨hi, hc⟩
  · rw [hc, hi]
    simp only [List.contains_nil, Bool.false_eq_true, if_false, List.find?_cons, hid, decide_true]
    refine ⟨⟨?_, rfl⟩, rfl, rfl, Or.inl ⟨trivial, trivial⟩⟩
    simp [hid, FifoScheduler.emit]
  · rw [hc]
    simp only [List.contains_cons, beq_self_eq_true, Bool.true_or, if_true]
    exact ⟨⟨hi, by simp⟩, trivial, trivial, Or.inr ⟨rfl, trivial⟩⟩

end Scheduler

end Tensorplate
