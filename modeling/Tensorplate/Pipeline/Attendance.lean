import Tensorplate.Pipeline.Outcomes

/-!
# Whoever waits has a request to wait for

A waiter and an entry of the store end only by being told. Each step that
takes a request from the scheduler is looked at for who is told of it: the
dispatcher tells the waiter or the entry, `/policy/cancel` and the stale
marks tell the entry, a stop tells all entries. The sweep tells nobody, and
of the others none tells a waiter; where none of them meets a request that
is still awaited, nobody waits for a request that is gone.
-/

namespace Tensorplate

namespace Pipeline

open Lib Scheduler AsyncPolicy

variable {w w' : World} {k : ℕ} {c : Caller}

/-- `run_sync` waits and has not been told. -/
def Caller.Awaits (c : Caller) : Prop := c.stage = .waiting ∧ c.waiter.done = false

/-- `run_async` has added its entry and will hand its request over, or
cancel the entry. -/
def Caller.Settles (c : Caller) : Prop :=
  c.stage = .asyncAdmitting ∨ ∃ error, c.stage = .undoing error

/-- The ids a helper is about to cancel in the scheduler. -/
def Helper.ids : Helper → List String
  | .cancelling requestId => [requestId]
  | .staling ids => ids
  | .stoppingDown | .rendering _ _ => []

namespace World

/-- The ids about to be cancelled in the scheduler. -/
def closingIds (w : World) : List String := w.helpers.flatMap Helper.ids

/-- What the scheduler has. -/
def scheduled (w : World) : List SchedulerRequest :=
  w.scheduler.queue ++ w.dispatcher.running.toList

/-- No `run_sync` waits for the request. -/
def Unawaited (w : World) (r : SchedulerRequest) : Prop :=
  ∃ c, w.callers[w.ticketOf r]? = some c ∧ c.Unwatched

/-- `run_sync` has given up on the request. -/
def GivenUp (w : World) (r : SchedulerRequest) : Prop :=
  ∃ c, w.callers[w.ticketOf r]? = some c ∧ c.sync = true ∧ c.waiter.abandoned = true

/-- **No step takes an awaited request from the scheduler without telling.**
An id is taken as before, and no cancel is about to come for the id of a
new entry; the sweep removes only requests that were given up; a cancel
sent by another call, and a shutdown, meet no request that a `run_sync`
still waits for. -/
def Attentive (w : World) (a : Action) : Prop :=
  w.Fresh a ∧ match a with
  | .call k _ now _ => ∀ c, w.callers[k]? = some c → c.stage = .adding →
      (w.store.addPending c.request now).2 = .ok () → c.request.requestId ∉ w.closingIds
  | .next t _ | .expireDue t =>
    ∀ r ∈ w.scheduler.queue, r ∉ (w.scheduler.expireDue t).1.queue → w.GivenUp r
  | .help i _ _ _ => ∀ h ∈ w.helpers[i]?, ∀ requestId ∈ h.ids.head?,
      ∀ r ∈ w.scheduled, r.requestId = requestId → w.Unawaited r
  | .shutdown _ _ => ∀ r ∈ w.scheduled, w.Unawaited r
  | _ => True

/-- The request of ticket `k` is queued, or in hand and not cancelled. -/
def Afoot (w : World) (k : ℕ) : Prop :=
  (∃ r ∈ w.scheduler.queue, w.ticketOf r = k) ∨
    ∃ r, w.dispatcher.hand = some r ∧ w.ticketOf r = k ∧ w.scheduler.cancelledInFlightIds = []

/-- The entry of ticket `k` is about to be cancelled or to have its
request. -/
def Settling (w : World) (k : ℕ) : Prop :=
  ∃ c, w.callers[k]? = some c ∧ (c.Settles ∨ c.sync = false ∧ .stoppingDown ∈ w.helpers)

/-- Nobody waits for the request of ticket `k`, but for an entry that is
about to be seen to. -/
def Done (w : World) (k : ℕ) : Prop :=
  (∀ c, w.callers[k]? = some c → ¬ c.Awaits) ∧
    ∀ e ∈ w.store.entries, e.live = true → w.owners[e.address]? = some k → w.Settling k

end World

/-- What the helpers and the callers leave behind. -/
structure Closing (w : World) : Prop where
  calm : ∀ (k : ℕ) (c : Caller), w.callers[k]? = some c → c.stage = .waiting →
    c.waiter.abandoned = false
  given : ∀ (k : ℕ) (c : Caller), w.callers[k]? = some c → c.waiter.abandoned = true →
    c.sync = true
  ended : ∀ requestId ∈ w.closingIds, ∀ e ∈ w.store.entries, e.requestId = requestId →
    e.live = false

/-- **Whoever waits has a request to wait for.** -/
structure Attended (w : World) : Prop where
  sync : ∀ (k : ℕ) (c : Caller), w.callers[k]? = some c → c.Awaits → w.Afoot k
  async : ∀ e ∈ w.store.entries, e.live = true → ∀ k, w.owners[e.address]? = some k →
    w.Afoot k ∨ w.Settling k

/-- **The step rule**: what was afoot still is or is done with, and who
waits waited before or has its request. -/
theorem Attended.update (h : Attended w) (hfoot : ∀ k, w.Afoot k → w'.Afoot k ∨ w'.Done k)
    (hsync : ∀ (k : ℕ) (c' : Caller), w'.callers[k]? = some c' → c'.Awaits →
      (∃ c, w.callers[k]? = some c ∧ c.Awaits) ∨ w'.Afoot k)
    (hasync : ∀ e' ∈ w'.store.entries, e'.live = true → ∀ k, w'.owners[e'.address]? = some k →
      (∃ e ∈ w.store.entries, e.live = true ∧ w.owners[e.address]? = some k) ∨
        w'.Afoot k ∨ w'.Settling k)
    (hsettle : ∀ k, w.Settling k → w'.Settling k ∨ w'.Afoot k ∨ w'.Done k) : Attended w' := by
  constructor
  · intro k c' hc' ha
    rcases hsync k c' hc' ha with ⟨c, hc, hw⟩ | hfoot'
    · rcases hfoot k (h.sync k c hc hw) with hf | hdone
      · exact hf
      · exact absurd ha (hdone.1 c' hc')
    · exact hfoot'
  · intro e' he' hlive k hk
    rcases hasync e' he' hlive k hk with ⟨e, he, hl, hke⟩ | hgood
    · rcases h.async e he hl k hke with hf | hs
      · rcases hfoot k hf with hf | hdone
        · exact Or.inl hf
        · exact Or.inr (hdone.2 e' he' hlive hk)
      · rcases hsettle k hs with hs | hf | hdone
        · exact Or.inr hs
        · exact Or.inl hf
        · exact Or.inr (hdone.2 e' he' hlive hk)
    · exact hgood

/-! ## What a step of a caller does -/

/-- What every step of a caller leaves alone, and how the caller changes. -/
structure Steps (w w' : World) (k : ℕ) (c c' : Caller) : Prop where
  callers : w'.callers = w.callers.set k c'
  helpers : w'.helpers = w.helpers
  dispatcher : w'.dispatcher = w.dispatcher
  sync : c'.sync = c.sync
  given : c'.waiter.abandoned = true → c.waiter.abandoned = true ∨ c.sync = true
  calm : c'.stage = .waiting → c'.waiter.abandoned = false

/-- The tables a step of a caller may change. -/
def World.tables (w : World) : FifoScheduler × AsyncPolicyStore × List ℕ × List ℕ :=
  (w.scheduler, w.store, w.tickets, w.owners)

/-- What a step of a caller does to the tables. -/
inductive Effect (w w' : World) (k : ℕ) (c c' : Caller) : Prop
  /-- It goes on by itself. -/
  | plain (htables : w'.tables = w.tables) (hwait : ¬ c'.Awaits) (hsettle : c.Settles → c'.Settles)
  /-- The scheduler refuses its request. -/
  | refused (s : FifoScheduler) (htables : w'.tables = (s, w.store, w.tickets ++ [k], w.owners))
      (hqueue : s.queue = w.scheduler.queue)
      (htombs : s.cancelledInFlightIds = w.scheduler.cancelledInFlightIds)
      (hwait : ¬ c'.Awaits) (hsettle : c.Settles → c'.Settles)
  /-- The scheduler takes its request. -/
  | admitted (s : FifoScheduler) (r : SchedulerRequest)
      (htables : w'.tables = (s, w.store, w.tickets ++ [k], w.owners))
      (hqueue : s.queue = w.scheduler.queue ++ [r])
      (htombs : s.cancelledInFlightIds = w.scheduler.cancelledInFlightIds)
      (hnumber : r.number = w.tickets.length)
  /-- It adds its entry. -/
  | added (t : AsyncPolicyStore) (e : Entry) (now : ℤ)
      (htables : w'.tables = (w.scheduler, t, w.tickets, w.owners ++ [k]))
      (hentries : t.entries = w.store.entries ++ [e])
      (hkey : e.key = (c.request.requestId, w.owners.length)) (hstage : c.stage = .adding)
      (hadd : (w.store.addPending c.request now).2 = .ok ())
      (hwait : ¬ c'.Awaits) (hsettle : c'.Settles)
  /-- It cancels its entry. -/
  | undone (now : ℤ) (htables : w'.tables =
      (w.scheduler, (w.store.cancel c.request.requestId now).1, w.tickets, w.owners))
      (hwait : ¬ c'.Awaits)
  /-- It cancels its request. -/
  | withdrawn (t : ℕ → ℤ) (htables : w'.tables =
      ((w.scheduler.cancel c.request.requestId .clientRequest t).1, w.store, w.tickets, w.owners))
      (hstage : c.stage = .withdrawing) (hwait : ¬ c'.Awaits)

/-- The tombstones stay as they are when a request is offered. -/
theorem tombs_admitRequest (s : FifoScheduler) (request : SchedulerRequest) (t : ℕ → ℤ) :
    (s.admitRequest request t).1.cancelledInFlightIds = s.cancelledInFlightIds := by
  have href : ∀ (s₁ : FifoScheduler) (n : ℕ) (code : ErrorCode) (message : String)
      (severity : Option PressureSeverity) (now : ℤ),
      (s₁.refuse n code message severity now).1.cancelledInFlightIds = s₁.cancelledInFlightIds :=
    fun s₁ n code message severity now =>
      (tables_eq (tables_refuse s₁ n code message severity now).1).2.2
  unfold FifoScheduler.admitRequest
  dsimp only
  split_ifs
  all_goals first
    | exact href _ _ _ _ _ _
    | rfl

/-- `admit`, as the tables have it. -/
theorem effect_admitRequest (h : Sound w) {v : World} {answer : Except Error Unit} {now : ℤ}
    {t : ℕ → ℤ} {request : InferRequest} (hasked : w.admitRequest k request now t = (v, answer)) :
    v.callers = w.callers ∧ v.helpers = w.helpers ∧ v.dispatcher = w.dispatcher ∧
      ∃ s, v.tables = (s, w.store, w.tickets ++ [k], w.owners) ∧
        s.cancelledInFlightIds = w.scheduler.cancelledInFlightIds ∧
        ((∃ error, answer = .error error) ∧ s.queue = w.scheduler.queue ∨
          answer = .ok () ∧ ∃ r, s.queue = w.scheduler.queue ++ [r] ∧
            r.number = w.tickets.length) := by
  have htombs := tombs_admitRequest w.scheduler
    { request := request, backendName := "", modelId := "", enqueueTime := now } t
  unfold World.admitRequest at hasked
  rcases admitRequest_cases w.scheduler
      { request := request, backendName := "", modelId := "", enqueueTime := now } t with
    ⟨s, error, hs, hq, -, -⟩ | ⟨s, time, hs, hq, -, -⟩
  · rw [hs] at hasked htombs
    obtain ⟨rfl, rfl⟩ := Prod.mk.inj hasked
    exact ⟨rfl, rfl, rfl, s, rfl, htombs, Or.inl ⟨⟨error, rfl⟩, hq⟩⟩
  · rw [hs] at hasked htombs
    obtain ⟨rfl, rfl⟩ := Prod.mk.inj hasked
    exact ⟨rfl, rfl, rfl, s, rfl, htombs, Or.inr ⟨rfl, _, hq, h.offered.symm⟩⟩

theorem steps_goTo (w : World) {v : World} (hc : v.callers = w.callers)
    (hh : v.helpers = w.helpers) (hd : v.dispatcher = w.dispatcher) {stage : Stage}
    (hs : stage ≠ .waiting ∨ c.waiter = {}) :
    Steps w (v.goTo k c stage) k c { c with stage := stage } := by
  refine ⟨?_, hh, hd, rfl, Or.inl, fun hw => ?_⟩
  · show v.callers.set k _ = _
    rw [hc]
  · rcases hs with hs | hs
    · exact absurd hw hs
    · show c.waiter.abandoned = false
      rw [hs]

theorem Caller.not_awaits {stage : Stage} (h : stage ≠ .waiting) :
    ¬ Caller.Awaits { c with stage := stage } := fun ha => h ha.1

theorem Caller.not_settles (h : c.stage ≠ .asyncAdmitting) (h' : ∀ e, c.stage ≠ .undoing e) :
    ¬ c.Settles := by
  rintro (hs | ⟨e, hs⟩)
  · exact h hs
  · exact h' e hs

/-- A step of a caller that changes no table. -/
theorem effect_goTo {v : World} (hsame : v.callers = w.callers ∧ v.helpers = w.helpers ∧
      v.dispatcher = w.dispatcher ∧ v.tables = w.tables)
    {stage : Stage} (hs : stage ≠ .waiting) (hset : ¬ c.Settles) :
    ∃ c', Steps w (v.goTo k c stage) k c c' ∧ Effect w (v.goTo k c stage) k c c' :=
  ⟨_, steps_goTo w hsame.1 hsame.2.1 hsame.2.2.1 (Or.inl hs),
    .plain hsame.2.2.2 (Caller.not_awaits hs) fun h => absurd h hset⟩

/-- **What a step of a caller does.** -/
theorem call_effect (h : Sound w) {t : ℕ → ℤ} {now : ℤ} {throws : Bool}
    (hc : w.callers[k]? = some c) (hstep : w.call k c t now throws = some w') :
    ∃ c', Steps w w' k c c' ∧ Effect w w' k c c' := by
  have hp := h.proper k c hc
  have hset : c.stage ≠ .asyncAdmitting → (∀ e, c.stage ≠ .undoing e) → ¬ c.Settles :=
    Caller.not_settles
  unfold World.call at hstep
  cases hst : c.stage with
  | creating relativeDeadline =>
    rw [hst] at hset
    simp only [hst] at hstep
    split at hstep
    · obtain rfl := Option.some.inj hstep
      refine ⟨_, ⟨rfl, rfl, rfl, rfl, Or.inl, fun hw => (by cases hw)⟩,
        .plain rfl (fun ha => by cases ha.1) fun hs => ?_⟩
      exact absurd hs (hset Stage.noConfusion fun _ => Stage.noConfusion)
    · obtain rfl := Option.some.inj hstep
      refine effect_goTo ?_ ?_ (hset Stage.noConfusion fun _ => Stage.noConfusion)
      · exact ⟨rfl, rfl, rfl, rfl⟩
      · exact Stage.noConfusion
  | entered =>
    rw [hst] at hset
    simp only [hst] at hstep
    split at hstep
    · obtain rfl := Option.some.inj hstep
      refine effect_goTo ?_ ?_ (hset Stage.noConfusion fun _ => Stage.noConfusion)
      · exact ⟨rfl, rfl, rfl, rfl⟩
      · exact Stage.noConfusion
    · obtain rfl := Option.some.inj hstep
      refine effect_goTo ?_ ?_ (hset Stage.noConfusion fun _ => Stage.noConfusion)
      · exact ⟨rfl, rfl, rfl, rfl⟩
      · split <;> exact Stage.noConfusion
  | registering =>
    rw [hst] at hset
    simp only [hst] at hstep
    split at hstep
    · obtain rfl := Option.some.inj hstep
      refine effect_goTo ?_ ?_ (hset Stage.noConfusion fun _ => Stage.noConfusion)
      · exact ⟨rfl, rfl, rfl, rfl⟩
      · exact Stage.noConfusion
    · obtain rfl := Option.some.inj hstep
      refine effect_goTo ?_ ?_ (hset Stage.noConfusion fun _ => Stage.noConfusion)
      · exact ⟨rfl, rfl, rfl, rfl⟩
      · exact Stage.noConfusion
  | syncAdmitting =>
    rw [hst] at hset
    simp only [hst] at hstep
    split at hstep
    · rename_i v u hasked
      obtain rfl := Option.some.inj hstep
      obtain ⟨hcal, hh, hd, s, htab, htombs, hq⟩ := effect_admitRequest h hasked
      refine ⟨_, steps_goTo w hcal hh hd (Or.inr (hp.fresh (by rw [hst]; rfl))), ?_⟩
      rcases hq with ⟨⟨error, he⟩, -⟩ | ⟨-, r, hq, hn⟩
      · cases he
      · exact .admitted s r htab hq htombs hn
    · rename_i v error hasked
      obtain rfl := Option.some.inj hstep
      obtain ⟨hcal, hh, hd, s, htab, htombs, hq⟩ := effect_admitRequest h hasked
      refine ⟨_, steps_goTo w hcal hh hd (Or.inl (by exact Stage.noConfusion)), ?_⟩
      rcases hq with ⟨-, hq⟩ | ⟨he, -⟩
      · exact .refused s htab hq htombs (Caller.not_awaits (by exact Stage.noConfusion)) fun hs =>
          absurd hs (hset Stage.noConfusion fun _ => Stage.noConfusion)
      · cases he
  | unregistering error =>
    rw [hst] at hset
    simp only [hst] at hstep
    obtain rfl := Option.some.inj hstep
    refine effect_goTo ?_ ?_ (hset Stage.noConfusion fun _ => Stage.noConfusion)
    · exact ⟨rfl, rfl, rfl, rfl⟩
    · exact Stage.noConfusion
  | waiting =>
    rw [hst] at hset
    simp only [hst] at hstep
    split at hstep
    · split at hstep
      · obtain rfl := Option.some.inj hstep
        refine effect_goTo ?_ ?_ (hset Stage.noConfusion fun _ => Stage.noConfusion)
        · exact ⟨rfl, rfl, rfl, rfl⟩
        · exact Stage.noConfusion
      · cases hstep
    · split at hstep
      · obtain rfl := Option.some.inj hstep
        have hsync : c.sync = true := hp.side true (by rw [hst]; rfl)
        refine ⟨_, ⟨rfl, rfl, rfl, rfl, fun _ => Or.inr hsync, fun hw => (by cases hw)⟩,
          .plain rfl (fun ha => by cases ha.1) fun hs => ?_⟩
        exact absurd hs (hset Stage.noConfusion fun _ => Stage.noConfusion)
      · cases hstep
  | abandoned =>
    rw [hst] at hset
    simp only [hst] at hstep
    obtain rfl := Option.some.inj hstep
    have hgone : ∀ v : World, v = w.eraseWaiter c.request.requestId ∨ v = w →
        ∃ c', Steps w (v.goTo k c .withdrawing) k c c' ∧
          Effect w (v.goTo k c .withdrawing) k c c' := by
      rintro v (rfl | rfl)
      all_goals
        refine effect_goTo ?_ ?_ (hset Stage.noConfusion fun _ => Stage.noConfusion)
        · exact ⟨rfl, rfl, rfl, rfl⟩
        · exact Stage.noConfusion
    refine hgone _ ?_
    split
    · exact Or.inl rfl
    · exact Or.inr rfl
  | withdrawing =>
    simp only [hst] at hstep
    obtain rfl := Option.some.inj hstep
    refine ⟨{ c with stage := .timedOut }, ⟨rfl, rfl, rfl, rfl, Or.inl, fun hw => ?_⟩,
      .withdrawn t rfl hst fun ha => ?_⟩
    · cases hw
    · cases ha.1
  | leaving outcome =>
    rw [hst] at hset
    simp only [hst] at hstep
    obtain rfl := Option.some.inj hstep
    refine effect_goTo ?_ ?_ (hset Stage.noConfusion fun _ => Stage.noConfusion)
    · exact ⟨rfl, rfl, rfl, rfl⟩
    · exact Stage.noConfusion
  | adding =>
    rw [hst] at hset
    simp only [hst] at hstep
    split at hstep
    · rename_i store u hadd
      obtain rfl := Option.some.inj hstep
      rcases h.keyed.addPending c.request now with ⟨error, he⟩ | ⟨s, e, he, -, hentries, -, hkey, -⟩
      · rw [hadd] at he
        cases (Prod.mk.inj he).2
      · rw [hadd] at he
        obtain ⟨rfl, -⟩ := Prod.mk.inj he
        refine ⟨{ c with stage := .asyncAdmitting }, ⟨rfl, rfl, rfl, rfl, Or.inl, fun hw => ?_⟩,
          .added store e now rfl hentries ?_ hst (by rw [hadd]) (fun ha => ?_) (Or.inl rfl)⟩
        · cases hw
        · rw [h.added]
          exact hkey
        · cases ha.1
    · obtain rfl := Option.some.inj hstep
      refine effect_goTo ?_ ?_ (hset Stage.noConfusion fun _ => Stage.noConfusion)
      · exact ⟨rfl, rfl, rfl, rfl⟩
      · exact Stage.noConfusion
  | asyncAdmitting =>
    simp only [hst] at hstep
    split at hstep
    · rename_i v u hasked
      obtain rfl := Option.some.inj hstep
      obtain ⟨hcal, hh, hd, s, htab, htombs, hq⟩ := effect_admitRequest h hasked
      refine ⟨_, steps_goTo w hcal hh hd (Or.inl (by exact Stage.noConfusion)), ?_⟩
      rcases hq with ⟨⟨error, he⟩, -⟩ | ⟨-, r, hq, hn⟩
      · cases he
      · exact .admitted s r htab hq htombs hn
    · rename_i v error hasked
      obtain rfl := Option.some.inj hstep
      obtain ⟨hcal, hh, hd, s, htab, htombs, hq⟩ := effect_admitRequest h hasked
      refine ⟨_, steps_goTo w hcal hh hd (Or.inl (by exact Stage.noConfusion)), ?_⟩
      rcases hq with ⟨-, hq⟩ | ⟨he, -⟩
      · exact .refused s htab hq htombs (Caller.not_awaits (by exact Stage.noConfusion)) fun _ =>
          Or.inr ⟨error, rfl⟩
      · cases he
  | undoing error =>
    simp only [hst] at hstep
    obtain rfl := Option.some.inj hstep
    refine ⟨{ c with stage := .refused error }, ⟨rfl, rfl, rfl, rfl, Or.inl, fun hw => ?_⟩,
      .undone now rfl fun ha => ?_⟩
    · cases hw
    · cases ha.1
  | answered outcome =>
    rw [hst] at hset
    simp only [hst] at hstep
    split at hstep
    · obtain rfl := Option.some.inj hstep
      have hgone : ∀ v : World, v = w.releaseOutputs outcome.origin ∨ v = w →
          ∃ c', Steps w (v.goTo k c .ended) k c c' ∧ Effect w (v.goTo k c .ended) k c c' := by
        rintro v (rfl | rfl)
        all_goals
        refine effect_goTo ?_ ?_ (hset Stage.noConfusion fun _ => Stage.noConfusion)
        · exact ⟨rfl, rfl, rfl, rfl⟩
        · exact Stage.noConfusion
      refine hgone _ ?_
      split
      · exact Or.inr rfl
      · exact Or.inl rfl
    · obtain rfl := Option.some.inj hstep
      refine effect_goTo ?_ ?_ (hset Stage.noConfusion fun _ => Stage.noConfusion)
      · exact ⟨rfl, rfl, rfl, rfl⟩
      · exact Stage.noConfusion
  | refused error =>
    simp only [hst] at hstep
    cases hstep
  | accepted =>
    simp only [hst] at hstep
    cases hstep
  | timedOut =>
    simp only [hst] at hstep
    cases hstep
  | ended =>
    simp only [hst] at hstep
    cases hstep

/-! ## Callers -/

theorem Steps.get {c' : Caller} (h : Steps w w' k c c') (hc : w.callers[k]? = some c) {j : ℕ}
    {x : Caller} :
    w'.callers[j]? = some x ↔ j = k ∧ x = c' ∨ j ≠ k ∧ w.callers[j]? = some x := by
  rw [h.callers]
  show (w.move k c' w.syncWaiters).callers[j]? = some x ↔ _
  exact callers_move hc

/-- The tables one by one. -/
theorem tables_inj {s : FifoScheduler} {t : AsyncPolicyStore} {tickets owners : List ℕ}
    (h : w.tables = (s, t, tickets, owners)) :
    w.scheduler = s ∧ w.store = t ∧ w.tickets = tickets ∧ w.owners = owners := by
  unfold World.tables at h
  simp only [Prod.mk.injEq] at h
  exact h

/-- What is afoot stays afoot while nothing is taken away. -/
theorem World.Afoot.mono (h : w.Afoot k) (hs : Sound w)
    (hq : ∀ r ∈ w.scheduler.queue, r ∈ w'.scheduler.queue)
    (hc : w.scheduler.cancelledInFlightIds = [] → w'.scheduler.cancelledInFlightIds = [])
    (ht : w.tickets <+: w'.tickets) (hd : w'.dispatcher.hand = w.dispatcher.hand) :
    w'.Afoot k := by
  have hticket : ∀ r ∈ w.held, w'.ticketOf r = w.ticketOf r := by
    intro r hr
    have hx := World.ticketOf_eq (hs.numbered r hr)
    have hx' := getElem?_of_extends ht hx
    unfold World.ticketOf at hx' ⊢
    rw [List.getD_eq_getElem?_getD, hx']
    rfl
  rcases h with ⟨r, hr, hk⟩ | ⟨r, hr, hk, htomb⟩
  · exact Or.inl ⟨r, hq r hr, (hticket r (World.mem_held_of_queue hr)).trans hk⟩
  · exact Or.inr ⟨r, hd.trans hr, (hticket r (World.mem_held_of_hand hr)).trans hk, hc htomb⟩

/-- A caller that settles settles on. -/
theorem Steps.settling {c' : Caller} (h : Steps w w' k c c') (hc : w.callers[k]? = some c)
    (hset : c.Settles → c'.Settles) {j : ℕ} (hj : w.Settling j) : w'.Settling j := by
  obtain ⟨x, hx, hs⟩ := hj
  rcases eq_or_ne j k with rfl | hne
  · rw [hc, Option.some.injEq] at hx
    subst hx
    refine ⟨c', (h.get hc).2 (Or.inl ⟨rfl, rfl⟩), ?_⟩
    rcases hs with hs | ⟨hs, hstop⟩
    · exact Or.inl (hset hs)
    · refine Or.inr ⟨h.sync.trans hs, ?_⟩
      rw [h.helpers]
      exact hstop
  · refine ⟨x, (h.get hc).2 (Or.inr ⟨hne, hx⟩), ?_⟩
    rw [h.helpers]
    exact hs

/-- Who awaits behind a step awaited before it, or is the caller of the
step. -/
theorem Steps.awaits {c' : Caller} (h : Steps w w' k c c') (hc : w.callers[k]? = some c) {j : ℕ}
    {x : Caller} (hx : w'.callers[j]? = some x) (ha : x.Awaits) :
    (∃ y, w.callers[j]? = some y ∧ y.Awaits) ∨ j = k ∧ c'.Awaits := by
  rcases (h.get hc).1 hx with ⟨rfl, rfl⟩ | ⟨-, hx⟩
  · exact Or.inr ⟨rfl, ha⟩
  · exact Or.inl ⟨x, hx, ha⟩

theorem Closing.call (h : Closing w) (hs : Sound w) {t : ℕ → ℤ} {now : ℤ} {throws : Bool}
    (hc : w.callers[k]? = some c) (hat : w.Attentive (.call k t now throws))
    (hstep : w.call k c t now throws = some w') : Closing w' := by
  obtain ⟨c', hst, heff⟩ := call_effect hs hc hstep
  have hids : w'.closingIds = w.closingIds := by
    unfold World.closingIds
    rw [hst.helpers]
  have hkept : ∀ {v : AsyncPolicyStore}, w'.store = v → Kept w.store v →
      ∀ id ∈ w.closingIds, ∀ e ∈ w'.store.entries, e.requestId = id → e.live = false := by
    rintro v rfl hk id hid e he heid
    obtain ⟨x, hx, hl⟩ := hk.entries e he
    obtain ⟨hxid, -⟩ := Prod.mk.inj hl.key
    by_contra hlive
    rw [Bool.not_eq_false] at hlive
    have hdead := h.ended id hid x hx (hxid.symm.trans heid)
    rw [hl.live hlive] at hdead
    cases hdead
  refine ⟨fun j x hx hw => ?_, fun j x hx hab => ?_, ?_⟩
  · rcases (hst.get hc).1 hx with ⟨rfl, rfl⟩ | ⟨-, hx⟩
    · exact hst.calm hw
    · exact h.calm j x hx hw
  · rcases (hst.get hc).1 hx with ⟨rfl, rfl⟩ | ⟨-, hx⟩
    · rw [hst.sync]
      rcases hst.given hab with hab | hsync
      · exact h.given j c hc hab
      · exact hsync
    · exact h.given j x hx hab
  · rw [hids]
    cases heff with
    | plain htab _ _ => exact hkept (tables_inj htab).2.1 (Kept.refl hs.keyed)
    | refused s htab _ _ _ _ => exact hkept (tables_inj htab).2.1 (Kept.refl hs.keyed)
    | admitted s r htab _ _ _ => exact hkept (tables_inj htab).2.1 (Kept.refl hs.keyed)
    | undone now' htab _ => exact hkept (tables_inj htab).2.1 (hs.keyed.cancel _ _)
    | withdrawn t' htab _ _ => exact hkept (tables_inj htab).2.1 (Kept.refl hs.keyed)
    | added v e now' htab hentries hkey hstage hadd _ _ =>
      intro id hid x hx hxid
      rw [(tables_inj htab).2.1, hentries] at hx
      rcases List.mem_append.1 hx with hx | hx
      · exact h.ended id hid x hx hxid
      · rw [List.mem_singleton] at hx
        subst hx
        obtain ⟨hxr, -⟩ := Prod.mk.inj hkey
        have hadd' : (w.store.addPending c.request now).2 = .ok () := by
          unfold AsyncPolicyStore.addPending at hadd ⊢
          split_ifs at hadd ⊢
          rfl
        refine absurd ?_ (hat.2 c hc hstage hadd')
        rw [← hxr, hxid]
        exact hid

theorem Attended.call (h : Attended w) (hs : Sound w) {t : ℕ → ℤ} {now : ℤ}
    {throws : Bool} (hc : w.callers[k]? = some c)
    (hstep : w.call k c t now throws = some w') : Attended w' := by
  obtain ⟨c', hst, heff⟩ := call_effect hs hc hstep
  have hhand : w'.dispatcher.hand = w.dispatcher.hand := by rw [hst.dispatcher]
  have hnew : w'.callers[k]? = some c' := (hst.get hc).2 (Or.inl ⟨rfl, rfl⟩)
  cases heff with
  | plain htab hwait hset =>
    obtain ⟨hsch, hstore, htick, hown⟩ := tables_inj htab
    refine h.update (fun j hj => Or.inl (hj.mono hs ?_ ?_ ?_ hhand)) (fun j x hx ha => ?_)
      (fun e he hl j hj => Or.inl ⟨e, ?_, hl, ?_⟩) fun j hj => Or.inl (hst.settling hc hset hj)
    · rw [hsch]
      exact fun _ => id
    · rw [hsch]
      exact id
    · simp only [htick, List.prefix_refl]
    · rcases hst.awaits hc hx ha with hold | ⟨-, ha'⟩
      · exact Or.inl hold
      · exact absurd ha' hwait
    · rw [← hstore]
      exact he
    · rw [← hown]
      exact hj
  | refused s htab hq htombs hwait hset =>
    obtain ⟨hsch, hstore, htick, hown⟩ := tables_inj htab
    refine h.update (fun j hj => Or.inl (hj.mono hs ?_ ?_ ?_ hhand)) (fun j x hx ha => ?_)
      (fun e he hl j hj => Or.inl ⟨e, ?_, hl, ?_⟩) fun j hj => Or.inl (hst.settling hc hset hj)
    · rw [hsch, hq]
      exact fun _ => id
    · rw [hsch, htombs]
      exact id
    · rw [htick]
      exact List.prefix_append _ _
    · rcases hst.awaits hc hx ha with hold | ⟨-, ha'⟩
      · exact Or.inl hold
      · exact absurd ha' hwait
    · rw [← hstore]
      exact he
    · rw [← hown]
      exact hj
  | admitted s r htab hq htombs hn =>
    obtain ⟨hsch, hstore, htick, hown⟩ := tables_inj htab
    have hfoot : w'.Afoot k := by
      refine Or.inl ⟨r, ?_, ?_⟩
      · rw [hsch, hq]
        exact List.mem_append_right _ List.mem_cons_self
      · unfold World.ticketOf
        rw [htick, hn]
        simp
    refine h.update (fun j hj => Or.inl (hj.mono hs ?_ ?_ ?_ hhand)) (fun j x hx ha => ?_)
      (fun e he hl j hj => Or.inl ⟨e, ?_, hl, ?_⟩) fun j hj => ?_
    · rw [hsch, hq]
      exact fun x hx => List.mem_append_left _ hx
    · rw [hsch, htombs]
      exact id
    · rw [htick]
      exact List.prefix_append _ _
    · rcases hst.awaits hc hx ha with hold | ⟨rfl, -⟩
      · exact Or.inl hold
      · exact Or.inr hfoot
    · rw [← hstore]
      exact he
    · rw [← hown]
      exact hj
    · rcases eq_or_ne j k with rfl | hne
      · exact Or.inr (Or.inl hfoot)
      · obtain ⟨x, hx, hsx⟩ := hj
        refine Or.inl ⟨x, (hst.get hc).2 (Or.inr ⟨hne, hx⟩), ?_⟩
        rw [hst.helpers]
        exact hsx
  | added v e now' htab hentries hkey hstage hadd hwait hset =>
    obtain ⟨hsch, hstore, htick, hown⟩ := tables_inj htab
    refine h.update (fun j hj => Or.inl (hj.mono hs ?_ ?_ ?_ hhand)) (fun j x hx ha => ?_)
      (fun x hx hl j hj => ?_) fun j hj => Or.inl (hst.settling hc (fun _ => hset) hj)
    · rw [hsch]
      exact fun _ => id
    · rw [hsch]
      exact id
    · simp only [htick, List.prefix_refl]
    · rcases hst.awaits hc hx ha with hold | ⟨-, ha'⟩
      · exact Or.inl hold
      · exact absurd ha' hwait
    · rw [hstore, hentries] at hx
      rw [hown] at hj
      rcases List.mem_append.1 hx with hx | hx
      · obtain ⟨i, hi, -⟩ := hs.stored x hx
        have hsame := getElem?_of_extends (List.prefix_append w.owners [k]) hi
        rw [hj, Option.some.injEq] at hsame
        exact Or.inl ⟨x, hx, hl, by rw [hsame]; exact hi⟩
      · rw [List.mem_singleton] at hx
        subst hx
        obtain ⟨-, haddr⟩ := Prod.mk.inj hkey
        rw [haddr, List.getElem?_concat_length, Option.some.injEq] at hj
        subst hj
        exact Or.inr (Or.inr ⟨c', hnew, Or.inl hset⟩)
  | undone now' htab hwait =>
    obtain ⟨hsch, hstore, htick, hown⟩ := tables_inj htab
    -- The entry of the caller is cancelled.
    have hdead : ∀ e ∈ w'.store.entries, e.live = true → w'.owners[e.address]? = some k →
        False := by
      intro e he hl hk
      rw [hstore] at he
      rw [hown] at hk
      obtain ⟨x, hx, hlater⟩ := (hs.keyed.cancel c.request.requestId now').entries e he
      obtain ⟨hxid, hxa⟩ := Prod.mk.inj hlater.key
      rw [hxa] at hk
      obtain ⟨i, hi, hold⟩ := hs.stored x hx
      rw [hk, Option.some.injEq] at hi
      subst hi
      obtain ⟨y, hy, -, hyid⟩ := hold.caller
      rw [hc, Option.some.injEq] at hy
      subst hy
      have := hs.keyed.cancel_ends c.request.requestId now' he (hxid.trans hyid.symm)
      rw [hl] at this
      cases this
    refine h.update (fun j hj => Or.inl (hj.mono hs ?_ ?_ ?_ hhand)) (fun j x hx ha => ?_)
      (fun e he hl j hj => ?_) fun j hj => ?_
    · rw [hsch]
      exact fun _ => id
    · rw [hsch]
      exact id
    · simp only [htick, List.prefix_refl]
    · rcases hst.awaits hc hx ha with hold | ⟨-, ha'⟩
      · exact Or.inl hold
      · exact absurd ha' hwait
    · rw [hstore] at he
      rw [hown] at hj
      obtain ⟨x, hx, hlater⟩ := (hs.keyed.cancel c.request.requestId now').entries e he
      obtain ⟨-, hxa⟩ := Prod.mk.inj hlater.key
      rw [hxa] at hj
      exact Or.inl ⟨x, hx, hlater.live hl, hj⟩
    · rcases eq_or_ne j k with rfl | hne
      · refine Or.inr (Or.inr ⟨fun x hx ha => ?_, fun e he hl hj => (hdead e he hl hj).elim⟩)
        rw [hnew, Option.some.injEq] at hx
        subst hx
        exact hwait ha
      · obtain ⟨x, hx, hsx⟩ := hj
        refine Or.inl ⟨x, (hst.get hc).2 (Or.inr ⟨hne, hx⟩), ?_⟩
        rw [hst.helpers]
        exact hsx
  | withdrawn t' htab hstage hwait =>
    obtain ⟨hsch, hstore, htick, hown⟩ := tables_inj htab
    obtain ⟨hkeeps, htombs⟩ := cancel_keeps w.scheduler c.request.requestId .clientRequest t'
    have hsync : c.sync = true := (hs.proper k c hc).side true (by rw [hstage]; rfl)
    have hset : ¬ c.Settles := by
      rintro (hs | ⟨e, hs⟩)
      · rw [hstage] at hs
        cases hs
      · rw [hstage] at hs
        cases hs
    -- What the cancel met is the caller's own request.
    have hdone : w'.Done k := by
      refine ⟨fun x hx ha => ?_, fun e he hl hj => ?_⟩
      · rw [hnew, Option.some.injEq] at hx
        subst hx
        exact hwait ha
      · rw [hstore] at he
        rw [hown] at hj
        obtain ⟨i, hi, hold⟩ := hs.stored e he
        rw [hj, Option.some.injEq] at hi
        subst hi
        obtain ⟨y, hy, hyn, -⟩ := hold.caller
        rw [hc, Option.some.injEq] at hy
        rw [← hy, hsync] at hyn
        cases hyn
    have hmine : ∀ r ∈ w.held, r.requestId = c.request.requestId → w.ticketOf r = k :=
      fun r hr hid => hs.agreed _ _ _ (.request hr hid rfl) (.caller hc (by rw [hstage]; rfl) rfl)
    have hticket : ∀ r, w'.ticketOf r = w.ticketOf r := by
      intro r
      unfold World.ticketOf
      rw [htick]
    refine h.update (fun j hj => ?_) (fun j x hx ha => ?_)
      (fun e he hl j hj => Or.inl ⟨e, ?_, hl, ?_⟩)
      fun j hj => Or.inl (hst.settling hc (fun hs => absurd hs hset) hj)
    · rcases eq_or_ne j k with rfl | hne
      · exact Or.inr hdone
      · rcases hj with ⟨r, hr, hk⟩ | ⟨r, hr, hk, htomb⟩
        · refine Or.inl (Or.inl ⟨r, ?_, (hticket r).trans hk⟩)
          rw [hsch]
          refine hkeeps r hr fun hid => hne ?_
          rw [← hk]
          exact hmine r (World.mem_held_of_queue hr) hid
        · refine Or.inl (Or.inr ⟨r, hhand.trans hr, (hticket r).trans hk, ?_⟩)
          rw [hsch]
          rcases htombs with hsame | ⟨record, hrec, hid⟩
          · exact hsame.trans htomb
          · -- The request in flight is the one in hand.
            obtain ⟨r', hrun, hrid, -⟩ := hs.record_hand hrec
            have hhand' := Dispatcher.hand_of_running hrun
            rw [hr, Option.some.injEq] at hhand'
            subst hhand'
            refine absurd ?_ hne
            rw [← hk]
            exact hmine r (World.mem_held_of_hand hr) (hrid.symm.trans hid)
    · rcases hst.awaits hc hx ha with hold | ⟨-, ha'⟩
      · exact Or.inl hold
      · exact absurd ha' hwait
    · rw [← hstore]
      exact he
    · rw [← hown]
      exact hj

/-! ## The dispatcher and the rest -/

/-- **The callers stand where they stood**, some of them told, and no entry
came. -/
structure Alike (w w' : World) : Prop where
  back : ∀ (k : ℕ) (c' : Caller), w'.callers[k]? = some c' → ∃ c : Caller,
    w.callers[k]? = some c ∧ c'.sync = c.sync ∧ c'.stage = c.stage ∧
      c'.waiter.abandoned = c.waiter.abandoned ∧ (c'.waiter.done = false → c.waiter.done = false)
  forth : ∀ (k : ℕ) (c : Caller), w.callers[k]? = some c → ∃ c' : Caller,
    w'.callers[k]? = some c' ∧ c'.sync = c.sync ∧ c'.stage = c.stage
  entries : ∀ e' ∈ w'.store.entries, ∃ e ∈ w.store.entries, e'.key = e.key ∧
    (e'.live = true → e.live = true)
  owners : w'.owners = w.owners

theorem Alike.of_kept (hc : w'.callers = w.callers) (ho : w'.owners = w.owners)
    (hk : Kept w.store w'.store) : Alike w w' := by
  refine ⟨fun k c' hk' => ?_, fun k c hk' => ?_, fun e' he' => ?_, ho⟩
  · rw [hc] at hk'
    exact ⟨c', hk', rfl, rfl, rfl, id⟩
  · rw [← hc] at hk'
    exact ⟨c, hk', rfl, rfl⟩
  · obtain ⟨e, he, hl⟩ := hk.entries e' he'
    exact ⟨e, he, hl.key, hl.live⟩

/-- The entries of an id that were ended stay so. -/
theorem Alike.ended (ha : Alike w w') {requestId : String}
    (h : ∀ e ∈ w.store.entries, e.requestId = requestId → e.live = false) :
    ∀ e ∈ w'.store.entries, e.requestId = requestId → e.live = false := by
  intro e' he' hid
  obtain ⟨e, he, hkey, hlive⟩ := ha.entries e' he'
  obtain ⟨hxid, -⟩ := Prod.mk.inj hkey
  by_contra hl
  rw [Bool.not_eq_false] at hl
  have hdead := h e he (hxid.symm.trans hid)
  rw [hlive hl] at hdead
  cases hdead

theorem Closing.alike (h : Closing w) (ha : Alike w w')
    (hids : ∀ requestId ∈ w'.closingIds, requestId ∈ w.closingIds ∨
      ∀ e ∈ w'.store.entries, e.requestId = requestId → e.live = false) : Closing w' := by
  refine ⟨fun k c' hc' hst => ?_, fun k c' hc' hab => ?_, fun requestId hid => ?_⟩
  · obtain ⟨c, hc, -, hs, hab, -⟩ := ha.back k c' hc'
    rw [hab]
    exact h.calm k c hc (hs.symm.trans hst)
  · obtain ⟨c, hc, hsync, -, hab', -⟩ := ha.back k c' hc'
    rw [hsync]
    exact h.given k c hc (hab'.symm.trans hab)
  · rcases hids requestId hid with hold | hnew
    · exact ha.ended (h.ended requestId hold)
    · exact hnew

/-- Who need not be told does not wait. -/
theorem Closing.not_awaits (h : Closing w) (hs : Sound w) (hc : w.callers[k]? = some c)
    (hu : c.Unwatched) : ¬ c.Awaits := by
  rintro ⟨hst, -⟩
  rcases hu with hu | hu
  · have := (hs.proper k c hc).side true (by rw [hst]; rfl)
    rw [hu] at this
    cases this
  · rw [h.calm k c hc hst] at hu
    cases hu

/-- The entries of the store are of async calls. -/
theorem Sound.entry_async (h : Sound w) (hc : w.callers[k]? = some c) {e : Entry}
    (he : e ∈ w.store.entries) (hk : w.owners[e.address]? = some k) :
    c.sync = false ∧ c.request.requestId = e.requestId := by
  obtain ⟨i, hi, hold⟩ := h.stored e he
  rw [hk, Option.some.injEq] at hi
  subst hi
  obtain ⟨y, hy, hsync, hid⟩ := hold.caller
  rw [hc, Option.some.injEq] at hy
  subst hy
  exact ⟨hsync, hid⟩

theorem Attended.alike (h : Attended w) (hs : Sound w) (ha : Alike w w')
    (hfoot : ∀ k, w.Afoot k → w'.Afoot k ∨ w'.Done k)
    (hstop : .stoppingDown ∈ w.helpers → .stoppingDown ∈ w'.helpers ∨
      ∀ e ∈ w'.store.entries, e.live = false) : Attended w' := by
  refine h.update hfoot (fun k c' hc' haw => ?_) (fun e' he' hl k hk => ?_) fun k hk => ?_
  · obtain ⟨c, hc, -, hst, -, hdone⟩ := ha.back k c' hc'
    exact Or.inl ⟨c, hc, hst.symm.trans haw.1, hdone haw.2⟩
  · obtain ⟨e, he, hkey, hlive⟩ := ha.entries e' he'
    obtain ⟨-, haddr⟩ := Prod.mk.inj hkey
    rw [ha.owners, haddr] at hk
    exact Or.inl ⟨e, he, hlive hl, hk⟩
  · obtain ⟨c, hc, hset⟩ := hk
    obtain ⟨c', hc', hsync, hst⟩ := ha.forth k c hc
    rcases hset with hset | ⟨hasync, hin⟩
    · refine Or.inl ⟨c', hc', Or.inl ?_⟩
      unfold Caller.Settles
      rw [hst]
      exact hset
    · rcases hstop hin with hin | hdead
      · exact Or.inl ⟨c', hc', Or.inr ⟨hsync.trans hasync, hin⟩⟩
      · refine Or.inr (Or.inr ⟨fun x hx haw => ?_, fun e he hl _ => ?_⟩)
        · rw [hc', Option.some.injEq] at hx
          subst hx
          have hside := (hs.proper k c hc).side true (by rw [← hst, haw.1]; rfl)
          rw [hasync] at hside
          cases hside
        · rw [hdead e he] at hl
          cases hl

/-- **The request in hand goes**, and nobody is left to wait for it. -/
theorem Attended.release (h : Attended w) (hs : Sound w) (ha : Alike w w') {r : SchedulerRequest}
    (hr : w.dispatcher.hand = some r) (hq : w'.scheduler.queue = w.scheduler.queue)
    (ht : w'.tickets = w.tickets) (hh : w'.helpers = w.helpers) (hdone : w'.Done (w.ticketOf r)) :
    Attended w' := by
  refine h.alike hs ha (fun k hk => ?_) fun hin => Or.inl (by rw [hh]; exact hin)
  rcases hk with ⟨x, hx, hkx⟩ | ⟨x, hx, hkx, -⟩
  · refine Or.inl (Or.inl ⟨x, by rw [hq]; exact hx, ?_⟩)
    unfold World.ticketOf
    rw [ht]
    exact hkx
  · rw [hr, Option.some.injEq] at hx
    subst hx
    rw [← hkx]
    exact Or.inr hdone

/-- Nothing is taken from anywhere. -/
theorem Attended.still (h : Attended w) (hcl : Closing w) (hs : Sound w) (ha : Alike w w')
    (hh : w'.helpers = w.helpers) (hq : w'.scheduler.queue = w.scheduler.queue)
    (hc : w.scheduler.cancelledInFlightIds = [] → w'.scheduler.cancelledInFlightIds = [])
    (ht : w'.tickets = w.tickets) (hd : w'.dispatcher.hand = w.dispatcher.hand) :
    Closing w' ∧ Attended w' := by
  refine ⟨hcl.alike ha fun requestId hid => Or.inl ?_, h.alike hs ha (fun k hk => Or.inl ?_)
    fun hin => Or.inl (by rw [hh]; exact hin)⟩
  · unfold World.closingIds at hid ⊢
    rw [hh] at hid
    exact hid
  · refine hk.mono hs ?_ hc ?_ hd
    · rw [hq]
      exact fun _ => id
    · simp only [ht, List.prefix_refl]

/-- The waiter of a caller is told something. -/
theorem alike_told {v : World} {x : SyncWaiter} (hc : w.callers[k]? = some c)
    (hcal : v.callers = w.callers.set k { c with waiter := x })
    (hab : x.abandoned = c.waiter.abandoned) (hdone : x.done = false → c.waiter.done = false)
    (hstore : v.store = w.store) (ho : v.owners = w.owners) : Alike w v := by
  have hget : ∀ {j : ℕ} {y : Caller}, v.callers[j]? = some y ↔
      j = k ∧ y = { c with waiter := x } ∨ j ≠ k ∧ w.callers[j]? = some y := by
    intro j y
    rw [hcal]
    show (w.move k _ w.syncWaiters).callers[j]? = some y ↔ _
    exact callers_move hc
  refine ⟨fun j y hy => ?_, fun j y hy => ?_, fun e he => ⟨e, hstore ▸ he, rfl, id⟩, ho⟩
  · rcases hget.1 hy with ⟨rfl, rfl⟩ | ⟨-, hy⟩
    · exact ⟨c, hc, rfl, rfl, hab, hdone⟩
    · exact ⟨y, hy, rfl, rfl, rfl, id⟩
  · rcases eq_or_ne j k with rfl | hne
    · rw [hc, Option.some.injEq] at hy
      subst hy
      exact ⟨_, hget.2 (Or.inl ⟨rfl, rfl⟩), rfl, rfl⟩
    · exact ⟨y, hget.2 (Or.inr ⟨hne, hy⟩), rfl, rfl⟩

/-- A request whose caller gave up is done with. -/
theorem done_of_abandoned (hcl : Closing w) (hs : Sound w) (hcal : w'.callers = w.callers)
    (hstore : w'.store = w.store) (ho : w'.owners = w.owners) (hc : w.callers[k]? = some c)
    (hab : c.waiter.abandoned = true) : w'.Done k := by
  refine ⟨fun x hx => ?_, fun e he _ hk => ?_⟩
  · rw [hcal] at hx
    have hxc : x = c := by
      rw [hc, Option.some.injEq] at hx
      exact hx.symm
    rw [hxc]
    exact hcl.not_awaits hs hc (Or.inr hab)
  · rw [hstore] at he
    rw [ho] at hk
    have hasync := (hs.entry_async hc he hk).1
    rw [hcl.given k c hc hab] at hasync
    cases hasync

/-- **The outcome reaches its waiter**, which waits no more. -/
theorem Attended.deliver (h : Attended w) (hcl : Closing w) (hs : Sound w) {r : SchedulerRequest}
    {j : ℕ} {out : Except Error InferResult} (hd : w.dispatcher = .completed r (some j) out) :
    Closing ({ w with dispatcher := .idle }.deliver (w.ticketOf r) j out) ∧
      Attended ({ w with dispatcher := .idle }.deliver (w.ticketOf r) j out) := by
  have hserves := hs.serves
  rw [hd] at hserves
  obtain ⟨⟨rfl, c, hc, hsync, -⟩, -⟩ := hserves
  have hhand : w.dispatcher.hand = some r := by
    rw [hd]
    rfl
  unfold World.deliver
  rw [show ({ w with dispatcher := .idle } : World).callers[w.ticketOf r]? = some c from hc]
  dsimp only
  have ha : Alike w ((World.setCaller { w with dispatcher := .idle } (w.ticketOf r) { c with
      waiter := { c.waiter with done := true, outcome := some ⟨out, w.ticketOf r⟩ } }).record
      (.delivered (w.ticketOf r) (w.ticketOf r))) :=
    alike_told hc rfl rfl (fun hf => by cases hf) rfl rfl
  refine ⟨hcl.alike ha fun requestId hid => Or.inl hid,
    h.release hs ha hhand rfl rfl rfl ⟨fun x hx haw => ?_, fun e he _ hk => ?_⟩⟩
  · change (w.callers.set (w.ticketOf r) _)[w.ticketOf r]? = some x at hx
    rw [List.getElem?_set_self (List.getElem?_eq_some_iff.1 hc).1, Option.some.injEq] at hx
    rw [← hx] at haw
    cases haw.2
  · have hasync := (hs.entry_async hc he hk).1
    rw [hsync] at hasync
    cases hasync

/-- **The outcome reaches the store**, and no entry of its id waits. -/
theorem Attended.publish (h : Attended w) (hcl : Closing w) (hs : Sound w) {r : SchedulerRequest}
    {out : Except Error InferResult} (hd : w.dispatcher = .completed r none out) (now : ℤ) :
    Closing ({ w with dispatcher := .idle }.publish (w.ticketOf r) r.requestId out now) ∧
      Attended ({ w with dispatcher := .idle }.publish (w.ticketOf r) r.requestId out now) := by
  have hserves := hs.serves
  rw [hd] at hserves
  obtain ⟨⟨c, hc, hun⟩, -⟩ := hserves
  have hhand : w.dispatcher.hand = some r := by
    rw [hd]
    rfl
  have hreq : c.request.requestId = r.requestId := by
    obtain ⟨x, hx, hreq, -⟩ := hs.hand_expected hhand
    rw [hc, Option.some.injEq] at hx
    subst hx
    exact congrArg InferRequest.requestId hreq
  -- Whatever was stored, no entry of the id waits behind it.
  have hall : ∀ (t : AsyncPolicyStore) (ps : List ℕ) (x : Event),
      (∀ e' ∈ t.entries, ∃ e ∈ w.store.entries, e'.key = e.key ∧
        (e'.live = true → e.live = true)) →
      (∀ e' ∈ t.entries, e'.requestId = r.requestId → e'.live = false) →
      Closing (World.record { w with dispatcher := .idle, store := t, publishers := ps } x) ∧
        Attended (World.record { w with dispatcher := .idle, store := t, publishers := ps } x) := by
    intro t ps x hent hdead
    have ha : Alike w (World.record { w with
        dispatcher := .idle, store := t, publishers := ps } x) :=
      ⟨fun k y hy => ⟨y, hy, rfl, rfl, rfl, id⟩, fun k y hy => ⟨y, hy, rfl, rfl⟩, hent, rfl⟩
    refine ⟨hcl.alike ha fun requestId hid => Or.inl hid,
      h.release hs ha hhand rfl rfl rfl ⟨fun y hy => ?_, fun e he hl hk => ?_⟩⟩
    · change w.callers[_]? = some y at hy
      rw [hc, Option.some.injEq] at hy
      rw [← hy]
      exact hcl.not_awaits hs hc hun
    · obtain ⟨e₀, he₀, hkey, -⟩ := hent e he
      obtain ⟨hid, haddr⟩ := Prod.mk.inj hkey
      change w.owners[e.address]? = _ at hk
      rw [haddr] at hk
      have hid₀ := (hs.entry_async hc he₀ hk).2
      rw [hdead e he (hid.trans (hid₀.symm.trans hreq))] at hl
      cases hl
  have hkept : ∀ (t : AsyncPolicyStore) (ps : List ℕ) (x : Event), Kept w.store t →
      (∀ e ∈ w.store.entries, e.requestId = r.requestId → e.live = false) →
      Closing (World.record { w with dispatcher := .idle, store := t, publishers := ps } x) ∧
        Attended (World.record { w with dispatcher := .idle, store := t, publishers := ps } x) := by
    intro t ps x hk hdead
    have hent : ∀ e' ∈ t.entries, ∃ e ∈ w.store.entries, e'.key = e.key ∧
        (e'.live = true → e.live = true) := by
      intro e' he'
      obtain ⟨e, he, hl⟩ := hk.entries e' he'
      exact ⟨e, he, hl.key, hl.live⟩
    refine hall t ps x hent fun e' he' hid => ?_
    obtain ⟨e, he, hkey, hlive⟩ := hent e' he'
    obtain ⟨hid', -⟩ := Prod.mk.inj hkey
    by_contra hl
    rw [Bool.not_eq_false] at hl
    have hfalse := hdead e he (hid'.symm.trans hid)
    rw [hlive hl] at hfalse
    cases hfalse
  have hends : ∀ (t : AsyncPolicyStore) (ps : List ℕ) (x : Event) (e e' : Entry),
      w.store.find r.requestId = some e → Ends w.store t e e' →
      Closing (World.record { w with dispatcher := .idle, store := t, publishers := ps } x) ∧
        Attended (World.record { w with dispatcher := .idle, store := t, publishers := ps } x) := by
    intro t ps x e e' hfind he
    obtain ⟨hmem, hid⟩ := hs.keyed.find_iff.1 hfind
    refine hall t ps x (fun y hy => ?_) fun y hy hyid => ?_
    · rcases (hs.keyed.mem_ends he).1 hy with rfl | ⟨hy, -⟩
      · exact ⟨e, hmem, he.key, fun hl => by rw [he.live] at hl; cases hl⟩
      · exact ⟨y, hy, rfl, id⟩
    · rcases (hs.keyed.mem_ends he).1 hy with rfl | ⟨hy, hne⟩
      · exact he.live
      · exact absurd (hs.keyed.eq_of_requestId hy hmem (hyid.trans hid.symm)) hne
  unfold World.publish
  cases out with
  | ok result =>
    dsimp only
    rcases hs.keyed.publishResult r.requestId result now with ⟨-, hk, hdead⟩ |
      ⟨e, e', hfind, -, he, -⟩
    · exact hkept _ _ _ hk hdead
    · exact hends _ _ _ e e' hfind he
  | error error =>
    dsimp only
    rcases hs.keyed.publishFailure r.requestId error now with ⟨-, hk, hdead⟩ |
      ⟨e, e', hfind, -, he, -⟩
    · exact hkept _ w.publishers _ hk hdead
    · exact hends _ w.publishers _ e e' hfind he

/-- **A step of the dispatcher tells whoever waits.** -/
theorem Attended.dispatch (h : Attended w) (hcl : Closing w) (hs : Sound w) {now : ℤ}
    (hstep : w.dispatch now = some w') : Closing w' ∧ Attended w' := by
  have hserves := hs.serves
  have hrun := hs.running
  have hsame : Kept w.store w.store := Kept.refl hs.keyed
  unfold World.dispatch at hstep
  cases hd : w.dispatcher with
  | idle =>
    simp only [hd] at hstep
    cases hstep
  | ready r j =>
    simp only [hd] at hstep
    cases hstep
  | taken r =>
    simp only [hd] at hstep
    obtain rfl := Option.some.inj hstep
    exact h.still hcl hs (Alike.of_kept rfl rfl hsame) rfl rfl id rfl (by rw [hd]; rfl)
  | found r j =>
    rw [hd] at hserves
    cases j with
    | none =>
      simp only [hd] at hstep
      obtain rfl := Option.some.inj hstep
      exact h.still hcl hs (Alike.of_kept rfl rfl (hs.keyed.markInFlight r.requestId)) rfl rfl id rfl
        (by rw [hd]; rfl)
    | some j =>
      simp only [hd] at hstep
      split at hstep
      · cases hstep
      · rename_i c hc
        split at hstep
        · obtain rfl := Option.some.inj hstep
          exact h.still hcl hs (Alike.of_kept rfl rfl hsame) rfl rfl id rfl (by rw [hd]; rfl)
        · obtain rfl := Option.some.inj hstep
          exact h.still hcl hs (alike_told hc rfl rfl id rfl rfl) rfl rfl id rfl (by rw [hd]; rfl)
  | dropping r =>
    simp only [hd] at hstep
    obtain rfl := Option.some.inj hstep
    exact h.still hcl hs (Alike.of_kept rfl rfl hsame) rfl rfl id rfl (by rw [hd]; rfl)
  | dropped r =>
    rw [hd] at hserves hrun
    obtain ⟨c, hc, hab⟩ := hserves
    simp only [hd] at hstep
    obtain rfl := Option.some.inj hstep
    obtain ⟨-, hq, -⟩ := onCompletion_cases hrun .failure (some .timeout) now
    have ha : Alike w { w with
        dispatcher := .idle
        scheduler := (w.scheduler.onCompletion r.requestId .failure (some .timeout) now).1 } :=
      Alike.of_kept rfl rfl hsame
    refine ⟨hcl.alike ha fun requestId hid => Or.inl hid, ?_⟩
    exact h.release hs ha (by rw [hd]; rfl) hq rfl rfl
      (done_of_abandoned hcl hs rfl rfl rfl hc hab)
  | inferred r j out =>
    simp only [hd] at hstep
    obtain rfl := Option.some.inj hstep
    exact h.still hcl hs (Alike.of_kept rfl rfl hsame) rfl rfl id rfl (by rw [hd]; rfl)
  | released r j out =>
    rw [hd] at hrun
    simp only [hd] at hstep
    obtain ⟨hruns, hq, -⟩ := onCompletion_cases hrun (World.completionOf out).1
      (World.completionOf out).2 now
    split at hstep
    · obtain rfl := Option.some.inj hstep
      exact h.still hcl hs (Alike.of_kept rfl rfl hsame) rfl hq (fun _ => hruns.2) rfl
        (by rw [hd]; rfl)
    · obtain rfl := Option.some.inj hstep
      exact h.still hcl hs (Alike.of_kept rfl rfl hsame) rfl hq (fun _ => hruns.2) rfl
        (by rw [hd]; rfl)
  | completed r j out =>
    cases j with
    | none =>
      simp only [hd] at hstep
      obtain rfl := Option.some.inj hstep
      exact h.publish hcl hs hd now
    | some j =>
      simp only [hd] at hstep
      obtain rfl := Option.some.inj hstep
      exact h.deliver hcl hs hd

/-- **A handler comes in.** -/
theorem Attended.enter (h : Attended w) (hcl : Closing w) (request : InferRequest) (sync : Bool)
    (d : Option ℤ) :
    Closing { w with callers := w.callers ++ [⟨request, sync, .creating d, {}⟩] } ∧
      Attended { w with callers := w.callers ++ [⟨request, sync, .creating d, {}⟩] } := by
  have hmem : ∀ {j : ℕ} {x : Caller},
      (w.callers ++ [⟨request, sync, .creating d, {}⟩])[j]? = some x →
      w.callers[j]? = some x ∨ x = ⟨request, sync, .creating d, {}⟩ := by
    intro j x hx
    rw [List.getElem?_append] at hx
    split at hx
    · exact Or.inl hx
    · have hin := List.mem_of_getElem? hx
      rw [List.mem_singleton] at hin
      exact Or.inr hin
  refine ⟨⟨fun j x hx hst => ?_, fun j x hx hab => ?_, hcl.ended⟩,
    h.update (fun j hj => Or.inl hj) (fun j x hx ha => ?_)
      (fun e he hl j hj => Or.inl ⟨e, he, hl, hj⟩) fun j hj => Or.inl ?_⟩
  · rcases hmem hx with hx | rfl
    · exact hcl.calm j x hx hst
    · rfl
  · rcases hmem hx with hx | rfl
    · exact hcl.given j x hx hab
    · cases hab
  · rcases hmem hx with hx | rfl
    · exact Or.inl ⟨x, hx, ha⟩
    · cases ha.1
  · obtain ⟨x, hx, hset⟩ := hj
    refine ⟨x, ?_, hset⟩
    show (w.callers ++ [_])[j]? = some x
    rw [List.getElem?_append_left (List.getElem?_eq_some_iff.1 hx).1]
    exact hx

/-- **A sweep that removes only what was given up.** -/
theorem Attended.sweep (h : Attended w) (hcl : Closing w) (hs : Sound w) (t : ℕ → ℤ)
    (hup : ∀ r ∈ w.scheduler.queue, r ∉ (w.scheduler.expireDue t).1.queue → w.GivenUp r) :
    Closing { w with scheduler := (w.scheduler.expireDue t).1 } ∧
      Attended { w with scheduler := (w.scheduler.expireDue t).1 } := by
  have ha : Alike w { w with scheduler := (w.scheduler.expireDue t).1 } :=
    Alike.of_kept rfl rfl (Kept.refl hs.keyed)
  refine ⟨hcl.alike ha fun requestId hid => Or.inl hid, h.alike hs ha (fun k hk => ?_) Or.inl⟩
  rcases hk with ⟨r, hr, hrk⟩ | ⟨r, hr, hrk, htomb⟩
  · by_cases hin : r ∈ (w.scheduler.expireDue t).1.queue
    · exact Or.inl (Or.inl ⟨r, hin, hrk⟩)
    · obtain ⟨c, hc, -, hab⟩ := hup r hr hin
      rw [hrk] at hc
      exact Or.inr (done_of_abandoned hcl hs rfl rfl rfl hc hab)
  · refine Or.inl (Or.inr ⟨r, hr, hrk, ?_⟩)
    exact (tables_eq (tables_expireDueLocked w.scheduler t)).2.2.trans htomb

theorem Attended.next (h : Attended w) (hcl : Closing w) (hs : Sound w) {t : ℕ → ℤ} {now : ℤ}
    (hup : ∀ r ∈ w.scheduler.queue, r ∉ (w.scheduler.expireDue t).1.queue → w.GivenUp r)
    (hstep : w.step (.next t now) = some w') : Closing w' ∧ Attended w' := by
  simp only [World.step] at hstep
  split at hstep
  · rename_i hidle
    have hrun := hs.running
    rw [hidle] at hrun
    rcases next_cases w.scheduler t now with ⟨hnone, hsch⟩ | ⟨r, hsome, hq, -, hr⟩
    · split at hstep
      · rename_i s r heq
        rw [heq] at hnone
        cases hnone
      · rename_i s heq
        obtain rfl := Option.some.inj hstep
        rw [heq] at hsch
        obtain rfl : s = _ := hsch
        exact h.sweep hcl hs t hup
    · split at hstep
      · rename_i s r' heq
        obtain rfl := Option.some.inj hstep
        rw [heq] at hsome hq hr
        obtain rfl := Option.some.inj hsome
        have ha : Alike w { w with scheduler := s, dispatcher := .taken r' } :=
          Alike.of_kept rfl rfl (Kept.refl hs.keyed)
        refine ⟨hcl.alike ha fun requestId hid => Or.inl hid,
          h.alike hs ha (fun k hk => ?_) Or.inl⟩
        rcases hk with ⟨x, hx, hxk⟩ | ⟨x, hx, -⟩
        · by_cases hin : x ∈ (w.scheduler.expireDue t).1.queue
          · rw [hq] at hin
            rcases List.mem_cons.1 hin with rfl | hin
            · exact Or.inl (Or.inr ⟨x, rfl, hxk, (hr hrun).2⟩)
            · exact Or.inl (Or.inl ⟨x, hin, hxk⟩)
          · obtain ⟨c, hc, -, hab⟩ := hup x hx hin
            rw [hxk] at hc
            exact Or.inr (done_of_abandoned hcl hs rfl rfl rfl hc hab)
        · rw [hidle] at hx
          cases hx
      · rename_i s heq
        rw [heq] at hsome
        cases hsome
  · cases hstep

/-- **A cancel sent by another call**, behind the end of its entry. -/
theorem Attended.cancel (h : Attended w) (hcl : Closing w) (hs : Sound w) {requestId : String}
    (hid : requestId ∈ w.closingIds)
    (hun : ∀ r ∈ w.scheduled, r.requestId = requestId → w.Unawaited r)
    (reason : CancellationReason) (t : ℕ → ℤ) {helpers : List Helper}
    (hids : ∀ i ∈ helpers.flatMap Helper.ids, i ∈ w.closingIds)
    (hstop : .stoppingDown ∈ w.helpers → .stoppingDown ∈ helpers) :
    Closing { w with
      scheduler := (w.scheduler.cancel requestId reason t).1, helpers := helpers } ∧
    Attended { w with
      scheduler := (w.scheduler.cancel requestId reason t).1, helpers := helpers } := by
  have ha : Alike w { w with
      scheduler := (w.scheduler.cancel requestId reason t).1, helpers := helpers } :=
    Alike.of_kept rfl rfl (Kept.refl hs.keyed)
  obtain ⟨hkeeps, htombs⟩ := cancel_keeps w.scheduler requestId reason t
  -- Nobody waits for what the cancel met.
  have hdone : ∀ r ∈ w.scheduled, r ∈ w.held → r.requestId = requestId →
      World.Done { w with
        scheduler := (w.scheduler.cancel requestId reason t).1, helpers := helpers }
        (w.ticketOf r) := by
    intro r hr hheld hrid
    obtain ⟨c, hc, hunw⟩ := hun r hr hrid
    refine ⟨fun x hx => ?_, fun e he hl hk => ?_⟩
    · change w.callers[_]? = some x at hx
      rw [hc, Option.some.injEq] at hx
      rw [← hx]
      exact hcl.not_awaits hs hc hunw
    · have heid := (hs.entry_async hc he hk).2
      obtain ⟨x, hx, hreq, -⟩ := hs.expected r hheld
      rw [hc, Option.some.injEq] at hx
      subst hx
      have hcid : c.request.requestId = requestId := by
        rw [hreq]
        exact hrid
      rw [hcl.ended requestId hid e he (heid.symm.trans hcid)] at hl
      cases hl
  refine ⟨hcl.alike ha fun i hi => Or.inl (hids i hi),
    h.alike hs ha (fun k hk => ?_) fun hin => Or.inl (hstop hin)⟩
  rcases hk with ⟨r, hr, hrk⟩ | ⟨r, hr, hrk, htomb⟩
  · by_cases hrid : r.requestId = requestId
    · rw [← hrk]
      exact Or.inr (hdone r (List.mem_append_left _ hr) (World.mem_held_of_queue hr) hrid)
    · exact Or.inl (Or.inl ⟨r, hkeeps r hr hrid, hrk⟩)
  · rcases htombs with hsame | ⟨record, hrec, hrid⟩
    · exact Or.inl (Or.inr ⟨r, hr, hrk, hsame.trans htomb⟩)
    · obtain ⟨r', hrun, hrid', -⟩ := hs.record_hand hrec
      have hhand := Dispatcher.hand_of_running hrun
      rw [hr, Option.some.injEq] at hhand
      subst hhand
      rw [← hrk]
      refine Or.inr (hdone r (List.mem_append_right _ ?_) (World.mem_held_of_hand hr)
        (hrid'.symm.trans hrid))
      rw [hrun]
      exact List.mem_cons_self

/-- The helpers that are left have no other ids. -/
theorem closingIds_eraseIdx {helpers : List Helper} {i : ℕ} {requestId : String}
    (h : requestId ∈ (helpers.eraseIdx i).flatMap Helper.ids) :
    requestId ∈ helpers.flatMap Helper.ids := by
  obtain ⟨x, hx, hid⟩ := List.mem_flatMap.1 h
  exact List.mem_flatMap.2 ⟨x, List.mem_of_mem_eraseIdx hx, hid⟩

/-- Another helper stays. -/
theorem mem_eraseIdx_of_ne {helpers : List Helper} {i : ℕ} {x y : Helper}
    (hi : helpers[i]? = some x) (hne : y ≠ x) (hy : y ∈ helpers) : y ∈ helpers.eraseIdx i := by
  obtain ⟨j, hj⟩ := List.mem_iff_getElem?.1 hy
  refine List.mem_eraseIdx_iff_getElem?.2 ⟨j, fun hji => ?_, hj⟩
  rw [hji, hi, Option.some.injEq] at hj
  exact hne hj.symm

/-- **A helper goes on.** -/
theorem Attended.help (h : Attended w) (hcl : Closing w) (hs : Sound w) {i : ℕ} {x : Helper}
    (hi : w.helpers[i]? = some x) (t : ℕ → ℤ) (now : ℤ) (throws : Bool)
    (hun : ∀ requestId ∈ x.ids.head?, ∀ r ∈ w.scheduled, r.requestId = requestId → w.Unawaited r) :
    Closing ({ w with helpers := w.helpers.eraseIdx i }.help t now throws x) ∧
      Attended ({ w with helpers := w.helpers.eraseIdx i }.help t now throws x) := by
  have hmem : ∀ requestId ∈ x.ids, requestId ∈ w.closingIds := fun requestId hid =>
    List.mem_flatMap.2 ⟨x, List.mem_of_getElem? hi, hid⟩
  have hstop : x ≠ .stoppingDown → .stoppingDown ∈ w.helpers →
      .stoppingDown ∈ w.helpers.eraseIdx i := fun hne hin =>
    mem_eraseIdx_of_ne hi hne.symm hin
  -- A helper that changes no table.
  have hidle : x ≠ .stoppingDown → ∀ v : World, v.callers = w.callers → v.owners = w.owners →
      v.store = w.store → v.scheduler = w.scheduler → v.tickets = w.tickets →
      v.dispatcher = w.dispatcher → v.helpers = w.helpers.eraseIdx i → Closing v ∧ Attended v := by
    intro hne v hcal ho hstore hsch ht hd hh
    have ha : Alike w v := Alike.of_kept hcal ho (by rw [hstore]; exact Kept.refl hs.keyed)
    refine ⟨hcl.alike ha fun requestId hid => Or.inl ?_,
      h.alike hs ha (fun k hk => Or.inl (hk.mono hs ?_ ?_ ?_ ?_)) fun hin => Or.inl ?_⟩
    · unfold World.closingIds at hid
      rw [hh] at hid
      exact closingIds_eraseIdx hid
    · rw [hsch]
      exact fun _ => id
    · rw [hsch]
      exact id
    · simp only [ht, List.prefix_refl]
    · rw [hd]
    · rw [hh]
      exact hstop hne hin
  cases x with
  | cancelling requestId =>
    exact h.cancel hcl hs (hmem _ List.mem_cons_self) (hun requestId rfl) .clientRequest t
      (fun j hj => closingIds_eraseIdx hj) (hstop Helper.noConfusion)
  | staling ids =>
    cases ids with
    | nil => exact hidle Helper.noConfusion _ rfl rfl rfl rfl rfl rfl rfl
    | cons requestId ids =>
      refine h.cancel hcl hs (hmem _ List.mem_cons_self) (hun requestId rfl) .staleSequence t
        (fun j hj => ?_) fun hin => List.mem_append_left _ (hstop Helper.noConfusion hin)
      rw [List.flatMap_append] at hj
      rcases List.mem_append.1 hj with hj | hj
      · exact closingIds_eraseIdx hj
      · refine hmem j (List.mem_cons_of_mem _ ?_)
        simpa [Helper.ids] using hj
  | stoppingDown =>
    have ha : Alike w { w with
        helpers := w.helpers.eraseIdx i, store := w.store.cancelAll now } :=
      Alike.of_kept rfl rfl (hs.keyed.cancelAll now)
    refine ⟨hcl.alike ha fun requestId hid => Or.inl (closingIds_eraseIdx hid),
      h.alike hs ha (fun k hk => Or.inl hk) fun _ => Or.inr fun e he => ?_⟩
    exact hs.keyed.cancelAll_ends now he
  | rendering k result =>
    show Closing (if throws then _ else _) ∧ Attended (if throws then _ else _)
    split
    · exact hidle Helper.noConfusion _ rfl rfl rfl rfl rfl rfl rfl
    · exact hidle Helper.noConfusion _ rfl rfl rfl rfl rfl rfl rfl

/-- **A shutdown that meets nothing a `run_sync` waits for**: the entries
are about to be cancelled. -/
theorem Attended.shutdown (h : Attended w) (hcl : Closing w) (hs : Sound w) (t u : ℕ → ℤ)
    (hun : ∀ r ∈ w.scheduled, w.Unawaited r) :
    Closing { w with
      scheduler := (w.scheduler.shutdown t u).1, helpers := w.helpers ++ [.stoppingDown] } ∧
    Attended { w with
      scheduler := (w.scheduler.shutdown t u).1, helpers := w.helpers ++ [.stoppingDown] } := by
  have hin : Helper.stoppingDown ∈ w.helpers ++ [.stoppingDown] :=
    List.mem_append_right _ List.mem_cons_self
  have ha : Alike w { w with
      scheduler := (w.scheduler.shutdown t u).1, helpers := w.helpers ++ [.stoppingDown] } :=
    Alike.of_kept rfl rfl (Kept.refl hs.keyed)
  have hdone : ∀ r, w.Unawaited r → World.Done { w with
      scheduler := (w.scheduler.shutdown t u).1, helpers := w.helpers ++ [.stoppingDown] }
      (w.ticketOf r) := by
    rintro r ⟨c, hc, hunw⟩
    refine ⟨fun x hx => ?_, fun e he _ hk => ?_⟩
    · change w.callers[_]? = some x at hx
      rw [hc, Option.some.injEq] at hx
      rw [← hx]
      exact hcl.not_awaits hs hc hunw
    · exact ⟨c, hc, Or.inr ⟨(hs.entry_async hc he hk).1, hin⟩⟩
  refine ⟨hcl.alike ha fun requestId hid => Or.inl ?_,
    h.alike hs ha (fun k hk => ?_) fun _ => Or.inl hin⟩
  · unfold World.closingIds at hid ⊢
    rw [List.flatMap_append] at hid
    rcases List.mem_append.1 hid with hid | hid
    · exact hid
    · cases hid
  · rcases hk with ⟨r, hr, hrk⟩ | ⟨r, hr, hrk, htomb⟩
    · rw [← hrk]
      exact Or.inr (hdone r (hun r (List.mem_append_left _ hr)))
    · cases hrun : w.dispatcher.running with
      | some r' =>
        have hhand := Dispatcher.hand_of_running hrun
        rw [hr, Option.some.injEq] at hhand
        subst hhand
        rw [← hrk]
        refine Or.inr (hdone r (hun r (List.mem_append_right _ ?_)))
        rw [hrun]
        exact List.mem_cons_self
      | none =>
        -- The completion was told already: nothing is in flight.
        have hruns := hs.running
        rw [hrun] at hruns
        have htrim := (trimmed_shutdown w.scheduler t u).runs none hruns
        exact Or.inl (Or.inr ⟨r, hr, hrk, htrim.2⟩)

/-- **Every step keeps every waiter attended**, where none takes an awaited
request away without telling. -/
theorem Attended.step (h : Attended w) (hcl : Closing w) (hs : Sound w) {a : Action}
    (hat : w.Attentive a) (hstep : w.step a = some w') : Closing w' ∧ Attended w' := by
  have hsame : Kept w.store w.store := Kept.refl hs.keyed
  cases a with
  | infer request relativeDeadline =>
    obtain rfl := Option.some.inj hstep
    exact h.enter hcl request true relativeDeadline
  | policyInfer request relativeDeadline =>
    obtain rfl := Option.some.inj hstep
    exact h.enter hcl request false relativeDeadline
  | call k t now throws =>
    simp only [World.step] at hstep
    split at hstep
    · rename_i c hc
      exact ⟨hcl.call hs hc hat hstep, h.call hs hc hstep⟩
    · cases hstep
  | next t now => exact h.next hcl hs hat.2 hstep
  | inferDone out =>
    simp only [World.step] at hstep
    split at hstep
    · rename_i r j hd
      obtain rfl := Option.some.inj hstep
      exact h.still hcl hs (Alike.of_kept rfl rfl hsame) rfl rfl id rfl (by rw [hd]; rfl)
    · cases hstep
  | dispatch now => exact h.dispatch hcl hs hstep
  | policyCancel requestId now =>
    obtain rfl := Option.some.inj hstep
    have ha : Alike w { w with
        store := (w.store.cancel requestId now).1
        helpers := w.helpers ++ [.cancelling requestId] } :=
      Alike.of_kept rfl rfl (hs.keyed.cancel requestId now)
    refine ⟨hcl.alike ha fun id hid => ?_,
      h.alike hs ha (fun k hk => Or.inl hk) fun hin => Or.inl (List.mem_append_left _ hin)⟩
    unfold World.closingIds at hid ⊢
    rw [List.flatMap_append] at hid
    rcases List.mem_append.1 hid with hid | hid
    · exact Or.inl hid
    · have hid' : id = requestId := by simpa [Helper.ids] using hid
      subst hid'
      exact Or.inr fun e he heid => hs.keyed.cancel_ends id now he heid
  | policyResult requestId =>
    have hk := hs.keyed.takeCompletedResult requestId
    simp only [World.step] at hstep
    split at hstep
    · rename_i store result heq
      obtain rfl := Option.some.inj hstep
      rw [heq] at hk
      have ha : Alike w { w with
          store := store
          helpers := w.helpers ++ [.rendering (w.publishers.getD result.number 0) result] } :=
        Alike.of_kept rfl rfl hk
      refine ⟨hcl.alike ha fun id hid => Or.inl ?_,
        h.alike hs ha (fun k hk => Or.inl hk) fun hin => Or.inl (List.mem_append_left _ hin)⟩
      unfold World.closingIds at hid ⊢
      rw [List.flatMap_append] at hid
      rcases List.mem_append.1 hid with hid | hid
      · exact hid
      · cases hid
    · obtain rfl := Option.some.inj hstep
      exact ⟨hcl, h⟩
  | markStaleBefore q now =>
    obtain rfl := Option.some.inj hstep
    have ha : Alike w { w with
        store := (w.store.markStaleBeforeSequence q now).1
        helpers := w.helpers ++ [.staling (w.store.markStaleBeforeSequence q now).2] } :=
      Alike.of_kept rfl rfl (hs.keyed.markStaleBeforeSequence q now)
    refine ⟨hcl.alike ha fun id hid => ?_,
      h.alike hs ha (fun k hk => Or.inl hk) fun hin => Or.inl (List.mem_append_left _ hin)⟩
    unfold World.closingIds at hid ⊢
    rw [List.flatMap_append] at hid
    rcases List.mem_append.1 hid with hid | hid
    · exact Or.inl hid
    · rw [List.flatMap_singleton] at hid
      exact Or.inr (hs.keyed.staleBefore_ends q now w.store.entries w.store [] hsame rfl
        (fun _ he => he) (fun _ hi => by cases hi) id hid)
  | help i t now throws =>
    simp only [World.step] at hstep
    split at hstep
    · rename_i x hi
      obtain rfl := Option.some.inj hstep
      exact h.help hcl hs hi t now throws (hat.2 x hi)
    · cases hstep
  | expireDue t =>
    obtain rfl := Option.some.inj hstep
    exact h.sweep hcl hs t hat.2
  | onPressure source severity stamp now =>
    obtain rfl := Option.some.inj hstep
    exact h.still hcl hs (Alike.of_kept rfl rfl hsame) rfl rfl id rfl rfl
  | enforceBounds now =>
    obtain rfl := Option.some.inj hstep
    exact h.still hcl hs (Alike.of_kept rfl rfl (hs.keyed.enforceBounds now)) rfl rfl id rfl rfl
  | shutdown t u =>
    obtain rfl := Option.some.inj hstep
    exact h.shutdown hcl hs t u hat.2
  | cancelAll now =>
    obtain rfl := Option.some.inj hstep
    exact h.still hcl hs (Alike.of_kept rfl rfl (hs.keyed.cancelAll now)) rfl rfl id rfl rfl
  | setStopping stopping =>
    obtain rfl := Option.some.inj hstep
    exact h.still hcl hs (Alike.of_kept rfl rfl hsame) rfl rfl id rfl rfl

/-! ## Runs -/

theorem attended_started (h : w.Started) : Closing w ∧ Attended w := by
  obtain ⟨config, bufferManager, s, storeConfig, -, rfl⟩ := h
  refine ⟨⟨?_, ?_, ?_⟩, ⟨?_, ?_⟩⟩
  · exact fun k c hc => by cases hc
  · exact fun k c hc => by cases hc
  · exact fun requestId hid => by cases hid
  · exact fun k c hc => by cases hc
  · exact fun e he => by cases he

theorem attended_run {w₀ : World} (h₀ : w₀.Started) (hrun : Run World.step World.Attentive w₀ w) :
    Sound w ∧ Closing w ∧ Attended w := by
  refine hrun.invariant (I := fun w => Sound w ∧ Closing w ∧ Attended w)
    ⟨sound_started h₀, attended_started h₀⟩ fun s a t h hat hstep => ?_
  exact ⟨h.1.step hat.1 hstep, h.2.2.step h.2.1 h.1 hat hstep⟩

/-- The caller is in no step: it waits in `run_sync`, or its call is over. -/
def Stage.atRest : Stage → Bool
  | .waiting | .refused _ | .accepted | .timedOut | .ended => true
  | _ => false

/-- **No call is between two of its steps**; the dispatcher may be in
`infer`. -/
def World.AtRest (w : World) : Prop :=
  w.helpers = [] ∧ (w.dispatcher = .idle ∨ ∃ r j, w.dispatcher = .ready r j) ∧
    ∀ c ∈ w.callers, c.stage.atRest = true

/-- The request of ticket `k` is queued or in flight. -/
def World.InScheduler (w : World) (k : ℕ) : Prop :=
  (∃ r ∈ w.scheduler.queue, w.tickets[r.number]? = some k) ∨
    ∃ record ∈ w.scheduler.inFlight, w.tickets[record.number]? = some k

theorem World.Afoot.inScheduler (h : w.Afoot k) (hs : Sound w) (hrest : w.AtRest) :
    w.InScheduler k := by
  rcases h with ⟨r, hr, hk⟩ | ⟨r, hr, hk, htomb⟩
  · refine Or.inl ⟨r, hr, ?_⟩
    rw [World.ticketOf_eq (hs.numbered r (World.mem_held_of_queue hr)), hk]
  · have hrun := hs.running
    rcases hrest.2.1 with hidle | ⟨r', j, hready⟩
    · rw [hidle] at hr
      cases hr
    · rw [hready] at hr hrun
      obtain rfl := Option.some.inj hr
      rcases hrun with ⟨record, hi, -, hnum, -⟩ | ⟨-, htomb'⟩
      · refine Or.inr ⟨record, by rw [hi]; exact List.mem_cons_self, ?_⟩
        rw [hnum, World.ticketOf_eq (hs.hand_numbered r' (by rw [hready]; rfl)), hk]
      · rw [htomb] at htomb'
        cases htomb'

/-- **Nobody waits for a request that is gone.** In every run in which no
step takes an awaited request from the scheduler without telling, whenever
no call is between two of its steps, a `run_sync` that still waits and an
entry that is pending or in flight have their request queued or in flight
in the scheduler. -/
theorem requests_attended {w₀ : World} (h₀ : w₀.Started)
    (hrun : Run World.step World.Attentive w₀ w) (hrest : w.AtRest) :
    (∀ (k : ℕ) (c : Caller), w.callers[k]? = some c → c.stage = .waiting →
      c.waiter.done = false → w.InScheduler k) ∧
    ∀ e ∈ w.store.entries, e.status = .pending ∨ e.status = .inFlight →
      ∃ k c, w.owners[e.address]? = some k ∧ w.callers[k]? = some c ∧
        c.request.requestId = e.requestId ∧ w.InScheduler k := by
  obtain ⟨hs, -, ha⟩ := attended_run h₀ hrun
  refine ⟨fun k c hc hst hdone => ?_, fun e he hst => ?_⟩
  · exact (ha.sync k c hc ⟨hst, hdone⟩).inScheduler hs hrest
  · have hlive : e.live = true := by
      unfold Entry.live
      rcases hst with hst | hst <;> simp [hst]
    obtain ⟨k, hk, hold⟩ := hs.stored e he
    obtain ⟨c, hc, -, hid⟩ := hold.caller
    refine ⟨k, c, hk, hc, hid, ?_⟩
    rcases ha.async e he hlive k hk with hfoot | ⟨x, hx, hset⟩
    · exact hfoot.inScheduler hs hrest
    · exfalso
      have hrestx := hrest.2.2 x (List.mem_of_getElem? hx)
      rcases hset with (hst' | ⟨error, hst'⟩) | ⟨-, hin⟩
      · rw [hst'] at hrestx
        cases hrestx
      · rw [hst'] at hrestx
        cases hrestx
      · rw [hrest.1] at hin
        cases hin

instance (w : World) (r : SchedulerRequest) : Decidable (w.GivenUp r) :=
  inferInstanceAs (Decidable (∃ c ∈ w.callers[w.ticketOf r]?,
    c.sync = true ∧ c.waiter.abandoned = true))

instance (w : World) (r : SchedulerRequest) : Decidable (w.Unawaited r) :=
  inferInstanceAs (Decidable (∃ c ∈ w.callers[w.ticketOf r]?,
    c.sync = false ∨ c.waiter.abandoned = true))

instance (w : World) : DecidablePred w.Attentive
  | .call k t now throws => inferInstanceAs (Decidable (w.Fresh (.call k t now throws) ∧
      ∀ c ∈ w.callers[k]?, c.stage = .adding → (w.store.addPending c.request now).2 = .ok () →
        c.request.requestId ∉ w.closingIds))
  | .next t now => inferInstanceAs (Decidable (w.Fresh (.next t now) ∧
      ∀ r ∈ w.scheduler.queue, r ∉ (w.scheduler.expireDue t).1.queue → w.GivenUp r))
  | .expireDue t => inferInstanceAs (Decidable (w.Fresh (.expireDue t) ∧
      ∀ r ∈ w.scheduler.queue, r ∉ (w.scheduler.expireDue t).1.queue → w.GivenUp r))
  | .help i t now throws => inferInstanceAs (Decidable (w.Fresh (.help i t now throws) ∧
      ∀ h ∈ w.helpers[i]?, ∀ requestId ∈ h.ids.head?,
        ∀ r ∈ w.scheduled, r.requestId = requestId → w.Unawaited r))
  | .shutdown t u => inferInstanceAs (Decidable (w.Fresh (.shutdown t u) ∧
      ∀ r ∈ w.scheduled, w.Unawaited r))
  | .infer _ _ | .policyInfer _ _ | .inferDone _ | .dispatch _ | .policyCancel _ _
  | .policyResult _ | .markStaleBefore _ _ | .onPressure _ _ _ _ | .enforceBounds _
  | .cancelAll _ | .setStopping _ => isTrue ⟨trivial, trivial⟩

set_option maxRecDepth 8000 in
theorem requests_attended_sample : ∃ w, Run World.step World.Attentive sampleWorld w ∧ w.AtRest ∧
    (∃ c, w.callers[1]? = some c ∧ c.stage = .waiting ∧ c.waiter.done = false ∧
      w.InScheduler 1) ∧
    ∀ e ∈ w.store.entries, e.status = .pending ∨ e.status = .inFlight →
      ∃ k c, w.owners[e.address]? = some k ∧ w.callers[k]? = some c ∧
        c.request.requestId = e.requestId ∧ w.InScheduler k := by
  obtain ⟨w, hw⟩ : ∃ w, exec (fun w a => if decide (w.Attentive a) then World.step w a else none)
      sampleWorld ([.policyInfer (sampleRequest "a") none, .infer (sampleRequest "b") none,
        .policyInfer (sampleRequest "c") none] ++ sampleCall 0 4 ++ sampleCall 1 4 ++
        sampleCall 2 4 ++ [.policyCancel "c" 5, .help 0 (fun _ => 5) 5 false] ++
        sampleDispatch "a") = some w := ⟨_, rfl⟩
  have hrun : Run World.step World.Attentive sampleWorld w :=
    Run.of_checked (fun _ _ h => of_decide_eq_true h) hw
  have hrest : w.AtRest := by
    cases hw
    exact ⟨rfl, Or.inl rfl, by decide⟩
  have h := requests_attended started_sampleWorld hrun hrest
  refine ⟨w, hrun, hrest, ?_, h.2⟩
  obtain ⟨c, hc, hst, hdone⟩ : ∃ c, w.callers[1]? = some c ∧ c.stage = .waiting ∧
      c.waiter.done = false := by
    cases hw
    exact ⟨_, rfl, rfl, rfl⟩
  exact ⟨c, hc, hst, hdone, h.1 1 c hc hst hdone⟩

set_option maxRecDepth 8000 in
/-- **An entry whose request is gone.** The sweep removes an async request
whose deadline has passed; its entry stays pending, and nothing is left in
the scheduler that could ever end it. -/
theorem request_unattended : ¬ ∀ w₀ w : World, w₀.Started → Run World.step World.Fresh w₀ w →
    w.AtRest → ∀ e ∈ w.store.entries, e.status = .pending ∨ e.status = .inFlight →
      ∃ k c, w.owners[e.address]? = some k ∧ w.callers[k]? = some c ∧
        c.request.requestId = e.requestId ∧ w.InScheduler k := by
  intro hall
  obtain ⟨w, hw⟩ : ∃ w, exec (fun w a => if decide (w.Fresh a) then World.step w a else none)
      sampleWorld ([.policyInfer (sampleRequest "a") (some 20)] ++ sampleCall 0 4 ++
        [.expireDue fun _ => 1000000000]) = some w := ⟨_, rfl⟩
  have hrun : Run World.step World.Fresh sampleWorld w :=
    Run.of_checked (fun _ _ h => of_decide_eq_true h) hw
  obtain ⟨hrest, e, he, hst, hq, hf⟩ : w.AtRest ∧ ∃ e ∈ w.store.entries, e.status = .pending ∧
      w.scheduler.queue = [] ∧ w.scheduler.inFlight = [] := by
    cases hw
    exact ⟨⟨rfl, Or.inl rfl, by decide⟩, _, List.mem_cons_self, rfl, rfl, rfl⟩
  obtain ⟨k, c, -, -, -, hin⟩ := hall sampleWorld w started_sampleWorld hrun hrest e he (Or.inl hst)
  rcases hin with ⟨r, hr, -⟩ | ⟨record, hr, -⟩
  · rw [hq] at hr
    cases hr
  · rw [hf] at hr
    cases hr

end Pipeline

end Tensorplate
