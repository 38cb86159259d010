import Tensorplate.Scheduler.Tables
import Tensorplate.Serving.Entries
import Tensorplate.Serving.Model.Pipeline

/-!
# Whose outcome is whose

What the pipeline's tables say of a request id: who waits under it, whose
request is queued or in hand, whose entry the store has. Where all of them
speak of one ticket, whatever is found under the id belongs to it. The
invariant that follows from it is kept here by everything that neither
takes a new id nor moves the dispatcher.
-/

namespace Tensorplate

namespace Pipeline

open Scheduler AsyncPolicy

/-- `run_sync` or `run_async` has not called `admit` yet. -/
def Stage.early : Stage → Bool
  | .creating _ | .entered | .registering | .syncAdmitting | .adding | .asyncAdmitting => true
  | _ => false

/-- Its waiter is in `sync_waiters_`. -/
def Stage.registered : Stage → Bool
  | .syncAdmitting | .unregistering _ | .waiting | .abandoned | .leaving _ => true
  | _ => false

/-- It has taken an id and may still act under it. -/
def Stage.busy : Stage → Bool
  | .withdrawing | .asyncAdmitting | .undoing _ => true
  | stage => stage.registered

/-- The call a stage is of, where it says so. -/
def Stage.side : Stage → Option Bool
  | .registering | .syncAdmitting | .unregistering _ | .waiting | .abandoned | .withdrawing
  | .leaving _ | .timedOut | .answered _ => some true
  | .adding | .asyncAdmitting | .undoing _ | .accepted => some false
  | _ => none

/-- What the scheduler may still dispatch is awaited, or was given up. -/
def Caller.Expects (c : Caller) : Prop :=
  if c.sync then c.waiter.abandoned = true ∨ c.stage = .waiting ∧ c.waiter.done = false
  else c.stage = .accepted

/-- The caller waits for the request the dispatcher has taken up. -/
def Caller.Watches (c : Caller) : Prop :=
  c.sync = true ∧ c.stage = .waiting ∧ c.waiter.dispatched = true ∧ c.waiter.done = false

/-- No waiter is to be told. -/
def Caller.Unwatched (c : Caller) : Prop := c.sync = false ∨ c.waiter.abandoned = true

/-- The request the scheduler counts as in flight. -/
def Dispatcher.running : Dispatcher → Option SchedulerRequest
  | .completed _ _ _ => none
  | d => d.hand

/-- What `infer` returned, as `dispatch_one` passes it on: a result whose
request was cancelled in flight is refused. -/
def Completes (out o : Except Error InferResult) : Prop :=
  o = out ∨ (∃ result, out = .ok result) ∧ o = .error cancelledInFlightError

namespace World

/-- The requests the scheduler or the dispatcher has. -/
def held (w : World) : List SchedulerRequest := w.scheduler.queue ++ w.dispatcher.hand.toList

/-- **Something of the request of ticket `k` is left under an id.** -/
inductive Mentions (w : World) (requestId : String) (k : ℕ) : Prop
  | waiter (h : (requestId, k) ∈ w.syncWaiters)
  | caller {c : Caller} (h : w.callers[k]? = some c) (hbusy : c.stage.busy = true)
      (hid : c.request.requestId = requestId)
  | request {r : SchedulerRequest} (h : r ∈ w.held) (hid : r.requestId = requestId)
      (hk : w.ticketOf r = k)
  | entry {e : Entry} (h : e ∈ w.store.entries) (hid : e.requestId = requestId)
      (hk : w.owners[e.address]? = some k)

/-- The ids of which something is left. -/
def idsInUse (w : World) : List String :=
  w.syncWaiters.map Prod.fst ++
    (w.callers.filter fun c => c.stage.busy).map (fun c => c.request.requestId) ++
    w.held.map SchedulerRequest.requestId ++ w.store.entries.map Entry.requestId

theorem Mentions.mem_idsInUse {w : World} {requestId : String} {k : ℕ}
    (h : w.Mentions requestId k) : requestId ∈ w.idsInUse := by
  unfold idsInUse
  rcases h with h | ⟨hc, hbusy, rfl⟩ | ⟨hr, rfl, -⟩ | ⟨he, rfl, -⟩
  · exact List.mem_append_left _ (List.mem_append_left _ (List.mem_append_left _
      (List.mem_map_of_mem h)))
  · refine List.mem_append_left _ (List.mem_append_left _ (List.mem_append_right _ ?_))
    exact List.mem_map_of_mem (List.mem_filter.2 ⟨List.mem_of_getElem? hc, hbusy⟩)
  · exact List.mem_append_left _ (List.mem_append_right _ (List.mem_map_of_mem hr))
  · exact List.mem_append_right _ (List.mem_map_of_mem he)

/-- **A request that takes an id takes one of which nothing is left.** -/
def Fresh (w : World) : Action → Prop
  | .call k _ now _ => ∀ c, w.callers[k]? = some c →
      (c.stage = .registering → (w.syncWaiters.any fun p => p.1 = c.request.requestId) = false →
        c.request.requestId ∉ w.idsInUse) ∧
      (c.stage = .adding → (w.store.addPending c.request now).2 = .ok () →
        c.request.requestId ∉ w.idsInUse)
  | _ => True

/-- **`o` is the outcome of the infer call for the request of ticket `k`.** -/
def Outcome (w : World) (k : ℕ) (o : Except Error InferResult) : Prop :=
  ∃ out, Event.inferred k out ∈ w.log ∧ Completes out o

/-- An outcome the caller of ticket `k` may have. -/
def Due (w : World) (k : ℕ) (o : SyncOutcome) : Prop := o.origin = k ∧ w.Outcome k o.result

/-- The entry is of the request of ticket `k`, and so is what it holds. -/
structure Holds (w : World) (k : ℕ) (e : Entry) : Prop where
  caller : ∃ c, w.callers[k]? = some c ∧ c.sync = false ∧ c.request.requestId = e.requestId
  result : ∀ result, e.result = some result →
    ∃ number, w.Outcome k (.ok { result with number := number })
  error : ∀ error, e.error = some error → w.Outcome k (.error error)

end World

/-- What is known of a caller by itself. -/
structure Caller.Proper (w : World) (k : ℕ) (c : Caller) : Prop where
  side : ∀ b, c.stage.side = some b → c.sync = b
  fresh : c.stage.early = true → c.waiter = {}
  told : ∀ o, c.waiter.outcome = some o → w.Due k o
  leaving : ∀ o, c.stage = .leaving o ∨ c.stage = .answered o → w.Due k o

/-- **No outcome goes to another request, and none is lost to one.** -/
def Event.Own (w : World) : Event → Prop
  | .inferred _ _ => True
  | .delivered k j => j = k
  | .stored k a => w.owners[a]? = some k
  | .suppressed k a => (∀ b, a = some b → w.owners[b]? = some k) ∧
      ∃ c, w.callers[k]? = some c ∧ c.Unwatched
  | .dropped k j => j = k ∧ ∃ c, w.callers[k]? = some c ∧ c.waiter.abandoned = true
  | .undone k a => ∀ b, a = some b → w.owners[b]? = some k
  | .withdrew k n => ∀ m, n = some m → w.tickets[m]? = some k
  | .inputsFreed _ | .outputsFreed _ => True

/-- The waiter the dispatcher found is the one of its request. -/
def Dispatcher.Serves (w : World) : Dispatcher → Prop
  | .idle | .taken _ => True
  | .found r none => ∃ c, w.callers[w.ticketOf r]? = some c ∧ c.Unwatched
  | .found r (some j) => j = w.ticketOf r ∧ ∃ c, w.callers[j]? = some c ∧ c.sync = true
  | .dropping r | .dropped r =>
    ∃ c, w.callers[w.ticketOf r]? = some c ∧ c.waiter.abandoned = true
  | .ready r j => Attends r j
  | .inferred r j out | .released r j out =>
    Attends r j ∧ Event.inferred (w.ticketOf r) out ∈ w.log
  | .completed r j out => Attends r j ∧ w.Outcome (w.ticketOf r) out
where
  /-- The waiter waits, or there is none to wait. -/
  Attends (r : SchedulerRequest) : Option ℕ → Prop
    | none => ∃ c, w.callers[w.ticketOf r]? = some c ∧ c.Unwatched
    | some j => j = w.ticketOf r ∧ ∃ c, w.callers[j]? = some c ∧ c.Watches

/-- **Every table speaks of one request under one id**, and what follows
from it. -/
structure Sound (w : World) : Prop where
  offered : w.tickets.length = w.scheduler.offered
  added : w.owners.length = w.store.added
  issued : ∀ k ∈ w.tickets, k < w.callers.length
  numbered : ∀ r ∈ w.held, r.number < w.tickets.length
  apart : (w.held.map w.ticketOf).Nodup
  early : ∀ (k : ℕ) (c : Caller), w.callers[k]? = some c → c.stage.early = true → k ∉ w.tickets
  agreed : ∀ requestId j k, w.Mentions requestId j → w.Mentions requestId k → j = k
  registered : ∀ (k : ℕ) (c : Caller), w.callers[k]? = some c → c.stage.registered = true →
    (c.request.requestId, k) ∈ w.syncWaiters
  waiters : ∀ p ∈ w.syncWaiters, ∃ c, w.callers[p.2]? = some c ∧ c.stage.registered = true ∧
    c.request.requestId = p.1
  expected : ∀ r ∈ w.held, ∃ c, w.callers[w.ticketOf r]? = some c ∧ c.request = r.request ∧ c.Expects
  serves : w.dispatcher.Serves w
  proper : ∀ (k : ℕ) (c : Caller), w.callers[k]? = some c → c.Proper w k
  keyed : Keyed w.store
  stored : ∀ e ∈ w.store.entries, ∃ k, w.owners[e.address]? = some k ∧ w.Holds k e
  logged : ∀ x ∈ w.log, x.Own w
  running : Runs w.scheduler w.dispatcher.running

/-! ## Growing worlds -/

/-- What a step never takes back. -/
structure Extends (w w' : World) : Prop where
  tickets : w.tickets <+: w'.tickets
  owners : w.owners <+: w'.owners
  log : ∀ x ∈ w.log, x ∈ w'.log
  callers : ∀ (k : ℕ) (c : Caller), w.callers[k]? = some c →
    ∃ c' : Caller, w'.callers[k]? = some c' ∧ c'.sync = c.sync ∧
    c'.request.requestId = c.request.requestId ∧
    (c.waiter.abandoned = true → c'.waiter.abandoned = true)

section Growing

variable {w w' : World}

theorem getElem?_of_extends {α : Type*} {xs ys : List α} (h : xs <+: ys) {i : ℕ} {x : α}
    (hx : xs[i]? = some x) : ys[i]? = some x := by
  obtain ⟨back, rfl⟩ := h
  rw [List.getElem?_append_left (List.getElem?_eq_some_iff.1 hx).1, hx]

theorem Extends.ticketOf (h : Extends w w') {r : SchedulerRequest}
    (hr : r.number < w.tickets.length) : w'.ticketOf r = w.ticketOf r := by
  have hx : w.tickets[r.number]? = some w.tickets[r.number] := List.getElem?_eq_getElem hr
  unfold World.ticketOf
  rw [List.getD_eq_getElem?_getD, List.getD_eq_getElem?_getD, hx, getElem?_of_extends h.tickets hx]

/-- A number the scheduler gave has its ticket. -/
theorem World.ticketOf_eq {r : SchedulerRequest} (hr : r.number < w.tickets.length) :
    w.tickets[r.number]? = some (w.ticketOf r) := by
  unfold World.ticketOf
  rw [List.getD_eq_getElem?_getD, List.getElem?_eq_getElem hr]
  rfl

theorem Extends.outcome (h : Extends w w') {k : ℕ} {o : Except Error InferResult}
    (ho : w.Outcome k o) : w'.Outcome k o := by
  obtain ⟨out, hm, hc⟩ := ho
  exact ⟨out, h.log _ hm, hc⟩

theorem Extends.due (h : Extends w w') {k : ℕ} {o : SyncOutcome} (ho : w.Due k o) : w'.Due k o :=
  ⟨ho.1, h.outcome ho.2⟩

theorem Extends.holds (h : Extends w w') {k : ℕ} {e : Entry} (he : w.Holds k e) :
    w'.Holds k e := by
  obtain ⟨c, hc, hs, hid⟩ := he.caller
  obtain ⟨c', hc', hs', hid', -⟩ := h.callers k c hc
  refine ⟨⟨c', hc', hs'.trans hs, hid'.trans hid⟩, fun result hr => ?_, fun error hr => ?_⟩
  · obtain ⟨number, ho⟩ := he.result result hr
    exact ⟨number, h.outcome ho⟩
  · exact h.outcome (he.error error hr)

theorem Extends.unwatched (h : Extends w w') {k : ℕ}
    (hc : ∃ c : Caller, w.callers[k]? = some c ∧ c.Unwatched) :
    ∃ c : Caller, w'.callers[k]? = some c ∧ c.Unwatched := by
  obtain ⟨c, hc, hu⟩ := hc
  obtain ⟨c', hc', hs, -, ha⟩ := h.callers k c hc
  exact ⟨c', hc', hu.imp (fun hb => hs.trans hb) ha⟩

theorem Extends.abandoned (h : Extends w w') {k : ℕ}
    (hc : ∃ c : Caller, w.callers[k]? = some c ∧ c.waiter.abandoned = true) :
    ∃ c : Caller, w'.callers[k]? = some c ∧ c.waiter.abandoned = true := by
  obtain ⟨c, hc, hu⟩ := hc
  obtain ⟨c', hc', -, -, ha⟩ := h.callers k c hc
  exact ⟨c', hc', ha hu⟩

theorem Extends.own (h : Extends w w') {x : Event} (hx : x.Own w) : x.Own w' := by
  cases x with
  | inferred k out => exact hx
  | delivered k j => exact hx
  | stored k a => exact getElem?_of_extends h.owners hx
  | suppressed k a =>
    exact ⟨fun b hb => getElem?_of_extends h.owners (hx.1 b hb), h.unwatched hx.2⟩
  | dropped k j => exact ⟨hx.1, h.abandoned hx.2⟩
  | undone k a => exact fun b hb => getElem?_of_extends h.owners (hx b hb)
  | withdrew k n => exact fun m hm => getElem?_of_extends h.tickets (hx m hm)
  | inputsFreed k => exact hx
  | outputsFreed k => exact hx

theorem Extends.proper (h : Extends w w') {k : ℕ} {c : Caller} (hc : c.Proper w k) :
    c.Proper w' k :=
  ⟨hc.side, hc.fresh, fun o ho => h.due (hc.told o ho), fun o ho => h.due (hc.leaving o ho)⟩

theorem Extends.same_callers (ht : w.tickets <+: w'.tickets) (ho : w.owners <+: w'.owners)
    (hl : ∀ x ∈ w.log, x ∈ w'.log) (hc : w'.callers = w.callers) : Extends w w' :=
  ⟨ht, ho, hl, fun k c hk => ⟨c, by rw [hc]; exact hk, rfl, rfl, id⟩⟩

/-- The dispatcher's waiter stays its waiter. -/
theorem Extends.serves (h : Extends w w') {d : Dispatcher} (hd : d.Serves w)
    (hn : ∀ r, d.hand = some r → r.number < w.tickets.length)
    (hw : ∀ (k : ℕ) (c : Caller), w.callers[k]? = some c → c.Watches →
      ∃ c' : Caller, w'.callers[k]? = some c' ∧ c'.Watches) : d.Serves w' := by
  have hattends : ∀ {r : SchedulerRequest} {j : Option ℕ}, r.number < w.tickets.length →
      Dispatcher.Serves.Attends w r j → Dispatcher.Serves.Attends w' r j := by
    intro r j hr ha
    cases j with
    | none =>
      show ∃ c, w'.callers[w'.ticketOf r]? = some c ∧ c.Unwatched
      rw [h.ticketOf hr]
      exact h.unwatched ha
    | some j =>
      obtain ⟨hj, c, hc, hwatch⟩ := ha
      exact ⟨hj.trans (h.ticketOf hr).symm, hw j c hc hwatch⟩
  cases d with
  | idle => trivial
  | taken r => trivial
  | found r j =>
    have ht := h.ticketOf (hn r rfl)
    cases j with
    | none =>
      show ∃ c, w'.callers[w'.ticketOf r]? = some c ∧ c.Unwatched
      rw [ht]
      exact h.unwatched hd
    | some j =>
      obtain ⟨hj, c, hc, hs⟩ := hd
      obtain ⟨c', hc', hs', -⟩ := h.callers j c hc
      exact ⟨hj.trans ht.symm, c', hc', hs'.trans hs⟩
  | dropping r =>
    show ∃ c, w'.callers[w'.ticketOf r]? = some c ∧ c.waiter.abandoned = true
    rw [h.ticketOf (hn r rfl)]
    exact h.abandoned hd
  | dropped r =>
    show ∃ c, w'.callers[w'.ticketOf r]? = some c ∧ c.waiter.abandoned = true
    rw [h.ticketOf (hn r rfl)]
    exact h.abandoned hd
  | ready r j => exact hattends (hn r rfl) hd
  | inferred r j out =>
    refine ⟨hattends (hn r rfl) hd.1, ?_⟩
    rw [h.ticketOf (hn r rfl)]
    exact h.log _ hd.2
  | released r j out =>
    refine ⟨hattends (hn r rfl) hd.1, ?_⟩
    rw [h.ticketOf (hn r rfl)]
    exact h.log _ hd.2
  | completed r j out =>
    refine ⟨hattends (hn r rfl) hd.1, ?_⟩
    rw [h.ticketOf (hn r rfl)]
    exact h.outcome hd.2

theorem World.mem_held_of_hand {r : SchedulerRequest} (h : w.dispatcher.hand = some r) :
    r ∈ w.held := by
  unfold World.held
  rw [h]
  exact List.mem_append_right _ List.mem_cons_self

theorem World.mem_held_of_queue {r : SchedulerRequest} (h : r ∈ w.scheduler.queue) :
    r ∈ w.held := List.mem_append_left _ h

theorem Dispatcher.hand_of_running {d : Dispatcher} {r : SchedulerRequest}
    (h : d.running = some r) : d.hand = some r := by
  cases d with
  | completed r' j out => cases h
  | idle => exact h
  | taken r' => exact h
  | found r' j => exact h
  | dropping r' => exact h
  | dropped r' => exact h
  | ready r' j => exact h
  | inferred r' j out => exact h
  | released r' j out => exact h

end Growing

end Pipeline

end Tensorplate
