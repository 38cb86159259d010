import Tensorplate.Pipeline.Frames

/-!
# Every outcome goes to its request

Where a request that takes an id takes one of which nothing is left, every
table of the pipeline speaks of one request under one id, through every
interleaving of the callers, the dispatcher and the rest of the worker.
-/

namespace Tensorplate

namespace Pipeline

open Lib Scheduler AsyncPolicy

variable {w w' : World} {k : ℕ} {c : Caller}

/-! ## The callers -/

/-- A caller that is not awaited goes to another stage. -/
theorem Caller.Expects.goTo (h : c.Expects) (hw : c.stage ≠ .waiting ∨ c.waiter.done = true)
    (ha : c.stage ≠ .accepted) (stage : Stage) : Caller.Expects { c with stage := stage } := by
  unfold Caller.Expects at h ⊢
  split at h
  · rename_i hs
    rw [if_pos hs]
    rcases h with h | ⟨hwait, hdone⟩
    · exact Or.inl h
    · rcases hw with hw | hw
      · exact absurd hwait hw
      · rw [hw] at hdone
        cases hdone
  · exact absurd h ha

theorem Caller.not_watches (hw : c.stage ≠ .waiting ∨ c.waiter.done = true) : ¬ c.Watches := by
  rintro ⟨-, hwait, -, hdone⟩
  rcases hw with hw | hw
  · exact hw hwait
  · rw [hw] at hdone
    cases hdone

/-- What another stage asks of a caller. -/
structure Caller.MayGo (w : World) (k : ℕ) (c : Caller) (stage : Stage) : Prop where
  unwatched : c.stage ≠ .waiting ∨ c.waiter.done = true
  open_ : c.stage ≠ .accepted
  early : stage.early = true → c.stage.early = true
  side : ∀ b, stage.side = some b → c.sync = b
  due : ∀ o, stage = .leaving o ∨ stage = .answered o → w.Due k o

theorem Caller.MayGo.evolves {stage : Stage} (h : c.MayGo w k stage) :
    Evolves c { c with stage := stage } :=
  ⟨rfl, rfl, fun _ => rfl, h.early, id⟩

theorem Caller.MayGo.proper {stage : Stage} (h : c.MayGo w k stage) (hp : c.Proper w k) :
    Caller.Proper w k { c with stage := stage } :=
  ⟨h.side, fun he => hp.fresh (h.early he), hp.told, h.due⟩

theorem Sound.goTo (h : Sound w) {stage : Stage} (hc : w.callers[k]? = some c)
    (hgo : c.MayGo w k stage) (hbusy : stage.busy = true → c.stage.busy = true)
    (hreg : stage.registered = c.stage.registered) : Sound (w.goTo k c stage) :=
  h.setCaller hc hgo.evolves (hgo.proper (h.proper k c hc)) hbusy hreg
    (fun _ hex => hex.goTo hgo.unwatched hgo.open_ stage)
    (Or.inr fun hw => absurd hw (Caller.not_watches hgo.unwatched))

theorem Sound.goAway (h : Sound w) {stage : Stage} (hc : w.callers[k]? = some c)
    (hgo : c.MayGo w k stage) (hr : c.stage.registered = true) (hr' : stage.registered = false) :
    Sound ((w.eraseWaiter c.request.requestId).goTo k c stage) :=
  h.leave hc hr hgo.evolves (hgo.proper (h.proper k c hc)) hr'
    (fun _ hex => hex.goTo hgo.unwatched hgo.open_ stage)
    (fun hw => absurd hw (Caller.not_watches hgo.unwatched))

/-- `InferRequest::create` keeps the id. -/
theorem requestId_create {requestId endpoint : String} {inputs : List NamedInput}
    {metadata : RequestMetadata} {deadline : Option ℤ} {now : ℤ} {request : InferRequest}
    (h : InferRequest.create requestId endpoint inputs metadata deadline now = .ok request) :
    request.requestId = requestId := by
  simp only [InferRequest.create, bind, Except.bind, pure, Except.pure, throw, throwThe,
    MonadExceptOf.throw] at h
  repeat' split at h
  all_goals first
    | (cases h; done)
    | (obtain rfl := Except.ok.inj h; rfl)

theorem requestId_createWithRelativeDeadline {requestId endpoint : String}
    {inputs : List NamedInput} {metadata : RequestMetadata} {relativeDeadline : Option ℤ}
    {started now : ℤ} {request : InferRequest}
    (h : InferRequest.createWithRelativeDeadline requestId endpoint inputs metadata
      relativeDeadline started now = .ok request) : request.requestId = requestId := by
  unfold InferRequest.createWithRelativeDeadline at h
  split at h
  · exact requestId_create h
  · split at h
    · cases h
    · exact requestId_create h

/-- **`run_sync` takes an id of which nothing is left.** -/
theorem Sound.register (h : Sound w) (hc : w.callers[k]? = some c) (hst : c.stage = .registering)
    (hfresh : c.request.requestId ∉ w.idsInUse) :
    Sound ({ w with syncWaiters := w.syncWaiters ++ [(c.request.requestId, k)] }.goTo k c
      .syncAdmitting) := by
  have hp := h.proper k c hc
  have hgo : c.MayGo w k .syncAdmitting :=
    ⟨Or.inl (by rw [hst]; exact Stage.noConfusion), by rw [hst]; exact Stage.noConfusion,
      fun _ => by rw [hst]; rfl, fun b hb => hp.side b (by rw [hst]; exact hb),
      fun o ho => by rcases ho with ho | ho <;> cases ho⟩
  refine h.move hc hgo.evolves (hgo.proper hp)
    (fun _ => Or.inr fun j hm => hfresh hm.mem_idsInUse) (fun p hmem => ?_)
    (fun p hmem _ => List.mem_append_left _ hmem)
    (fun _ => List.mem_append_right _ List.mem_cons_self)
    (fun _ hex => hex.goTo hgo.unwatched hgo.open_ .syncAdmitting)
    (Or.inr fun hw => absurd hw (Caller.not_watches hgo.unwatched))
  rcases List.mem_append.1 hmem with hmem | hmem
  · refine Or.inl ⟨hmem, fun hk => ?_⟩
    obtain ⟨x, hx, hr, -⟩ := h.waiters p hmem
    rw [hk, hc, Option.some.injEq] at hx
    rw [← hx, hst] at hr
    cases hr
  · exact Or.inr ⟨List.mem_singleton.1 hmem, rfl⟩

/-- **`scheduler->admit`**, and the caller goes to a stage of its answer. -/
theorem Sound.admitRequest (h : Sound w) {stage : Stage} {v : World} {answer : Except Error Unit}
    {now : ℤ} {t : ℕ → ℤ} (hc : w.callers[k]? = some c) (hearly : c.stage.early = true)
    (hbusy : c.stage.busy = true) (hgo : c.MayGo w k stage) (hlate : stage.early = false)
    (hreg : stage.registered = c.stage.registered)
    (hasked : w.admitRequest k c.request now t = (v, answer))
    (hok : answer = .ok () → Caller.Expects { c with stage := stage }) :
    Sound (v.goTo k c stage) := by
  have hmoved := h.goTo hc hgo (fun _ => hbusy) hreg
  have hc' : (w.move k { c with stage := stage } w.syncWaiters).callers[k]? =
      some { c with stage := stage } := (callers_move hc).2 (Or.inl ⟨rfl, rfl⟩)
  -- In the world behind the move, what the id mentions was mentioned before.
  have hown : ∀ j, (w.goTo k c stage).Mentions c.request.requestId j → j = k := by
    intro j hm
    refine h.agreed c.request.requestId j k ?_ (.caller hc hbusy rfl)
    rcases hm with hw | ⟨hx, hb, hid⟩ | ⟨hmem, hid, hj⟩ | ⟨hmem, hid, hj⟩
    · exact .waiter hw
    · change (w.move k { c with stage := stage } w.syncWaiters).callers[j]? = some _ at hx
      rcases (callers_move hc).1 hx with ⟨rfl, rfl⟩ | ⟨-, hx⟩
      · exact .caller hc hbusy rfl
      · exact .caller hx hb hid
    · exact .request hmem hid hj
    · exact .entry hmem hid hj
  unfold World.admitRequest at hasked
  rcases admitRequest_cases w.scheduler
      { request := c.request, backendName := "", modelId := "", enqueueTime := now } t with
    ⟨s, error, hs, hq, ho, hr⟩ | ⟨s, time, hs, hq, ho, hr⟩
  · rw [hs] at hasked
    obtain ⟨rfl, rfl⟩ := Prod.mk.inj hasked
    exact hmoved.offer hc' (h.early k c hc hearly) hlate hown (Or.inl hq) ho hr
  · rw [hs] at hasked
    obtain ⟨rfl, rfl⟩ := Prod.mk.inj hasked
    refine hmoved.offer hc' (h.early k c hc hearly) hlate hown (Or.inr ⟨hok rfl, ?_⟩) ho hr
    exact ⟨_, rfl, rfl, hq⟩

/-- **`run_async` takes an id of which nothing is left.** -/
theorem Sound.addPending (h : Sound w) {t : AsyncPolicyStore} {now : ℤ}
    (hc : w.callers[k]? = some c) (hst : c.stage = .adding)
    (hfresh : c.request.requestId ∉ w.idsInUse)
    (hadd : w.store.addPending c.request now = (t, .ok ())) :
    Sound ({ w with store := t, owners := w.owners ++ [k] }.goTo k c .asyncAdmitting) := by
  have hp := h.proper k c hc
  have hgo : c.MayGo w k .asyncAdmitting :=
    ⟨Or.inl (by rw [hst]; exact Stage.noConfusion), by rw [hst]; exact Stage.noConfusion,
      fun _ => by rw [hst]; rfl, fun b hb => hp.side b (by rw [hst]; exact hb),
      fun o ho => by rcases ho with ho | ho <;> cases ho⟩
  have hmoved : Sound (w.move k { c with stage := .asyncAdmitting } w.syncWaiters) := by
    refine h.move hc hgo.evolves (hgo.proper hp)
      (fun _ => Or.inr fun j hm => hfresh hm.mem_idsInUse) (fun p hmem => ?_)
      (fun p hmem _ => hmem) (fun hr => by cases hr)
      (fun _ hex => hex.goTo hgo.unwatched hgo.open_ _)
      (Or.inr fun hw => absurd hw (Caller.not_watches hgo.unwatched))
    refine Or.inl ⟨hmem, fun hk => ?_⟩
    obtain ⟨x, hx, hr, -⟩ := h.waiters p hmem
    rw [hk, hc, Option.some.injEq] at hx
    rw [← hx, hst] at hr
    cases hr
  have hc' : (w.move k { c with stage := .asyncAdmitting } w.syncWaiters).callers[k]? =
      some { c with stage := .asyncAdmitting } := (callers_move hc).2 (Or.inl ⟨rfl, rfl⟩)
  have hsync : c.sync = false := hp.side false (by rw [hst]; rfl)
  rcases h.keyed.addPending c.request now with ⟨error, he⟩ | ⟨t', e, he, hkeyed, hentries, hadded,
    hkey, hresult, herror⟩
  · rw [hadd] at he
    cases (Prod.mk.inj he).2
  · rw [hadd] at he
    obtain ⟨rfl, -⟩ := Prod.mk.inj he
    exact hmoved.addEntry hc' hsync (fun j hm => hmoved.agreed _ _ _ hm (.caller hc' rfl rfl))
      hkeyed hentries hadded hkey hresult herror

/-- A registered caller finds its own waiter. -/
theorem Sound.findWaiter_eq (h : Sound w) (hc : w.callers[k]? = some c)
    (hr : c.stage.registered = true) : w.findWaiter c.request.requestId = some k := by
  have hmem := h.registered k c hc hr
  obtain ⟨p, hp⟩ : ∃ p, w.syncWaiters.find? (fun p => p.1 = c.request.requestId) = some p := by
    rw [← Option.isSome_iff_exists, List.find?_isSome]
    exact ⟨_, hmem, decide_eq_true rfl⟩
  have hid : p.1 = c.request.requestId := by simpa using List.find?_some hp
  unfold World.findWaiter
  rw [hp]
  exact congrArg some ((h.waiter_eq hc hr (List.mem_of_find?_eq_some hp)).1 hid)

/-- **A cancel under the id of a busy caller meets only its own request.** -/
theorem Sound.meets_eq (h : Sound w) (hc : w.callers[k]? = some c) (hb : c.stage.busy = true)
    {m : ℕ} (hm : World.meets w.scheduler c.request.requestId = some m) :
    w.tickets[m]? = some k := by
  have hof : ∀ r ∈ w.held, r.requestId = c.request.requestId → w.tickets[r.number]? = some k := by
    intro r hr hid
    rw [World.ticketOf_eq (h.numbered r hr)]
    exact congrArg some (h.agreed _ _ _ (.request hr hid rfl) (.caller hc hb rfl))
  unfold World.meets at hm
  split at hm
  · rename_i r hfind
    obtain rfl := Option.some.inj hm
    have hid : r.requestId = c.request.requestId := by simpa using List.find?_some hfind
    exact hof r (World.mem_held_of_queue (List.mem_of_find?_eq_some hfind)) hid
  · obtain ⟨record, hfind, rfl⟩ := Option.map_eq_some_iff.1 hm
    have hid : record.requestId = c.request.requestId := by simpa using List.find?_some hfind
    obtain ⟨r, hr, hrid, hnum⟩ := h.record_hand (List.mem_of_find?_eq_some hfind)
    rw [hnum]
    exact hof r (World.mem_held_of_hand (Dispatcher.hand_of_running hr)) (hrid.symm.trans hid)

/-- The entry under the id of a busy caller is its own. -/
theorem Sound.entry_eq (h : Sound w) (hc : w.callers[k]? = some c) (hb : c.stage.busy = true)
    {e : Entry} (he : w.store.find c.request.requestId = some e) :
    w.owners[e.address]? = some k := by
  obtain ⟨hmem, hid⟩ := h.keyed.find_iff.1 he
  obtain ⟨j, hj, -⟩ := h.stored e hmem
  rw [hj, h.agreed _ j k (.entry hmem hid hj) (.caller hc hb rfl)]

theorem Sound.freeInputs (h : Sound w) (k : ℕ) : Sound (w.releaseInputs k) := h.record trivial

theorem Sound.freeOutputs (h : Sound w) (k : ℕ) : Sound (w.releaseOutputs k) := h.record trivial

/-- The stage is told an outcome. -/
def Stage.tells : Stage → Bool
  | .leaving _ | .answered _ => true
  | _ => false

/-- A step between two stages of one call that neither starts nor ends a
wait and is told no outcome. -/
def Stage.plain (stage stage' : Stage) : Bool :=
  decide (stage ≠ .waiting) && decide (stage ≠ .accepted) && (!stage'.early || stage.early) &&
    (stage'.side.isNone || stage'.side == stage.side) && !stage'.tells

theorem Sound.mayGo (h : Sound w) {stage : Stage} (hc : w.callers[k]? = some c)
    (hs : c.stage.plain stage = true) : c.MayGo w k stage := by
  simp only [Stage.plain, Bool.and_eq_true, Bool.or_eq_true, decide_eq_true_eq,
    Bool.not_eq_true', Option.isNone_iff_eq_none, beq_iff_eq] at hs
  obtain ⟨⟨⟨⟨hw, ha⟩, he⟩, hside⟩, htells⟩ := hs
  refine ⟨Or.inl hw, ha, fun hearly => ?_, fun b hb => ?_, fun o ho => ?_⟩
  · rcases he with he | he
    · rw [he] at hearly
      cases hearly
    · exact he
  · rcases hside with hside | hside
    · rw [hside] at hb
      cases hb
    · exact (h.proper k c hc).side b (hside ▸ hb)
  · rcases ho with rfl | rfl <;> cases htells

/-- `run_sync` or `run_async` goes on by itself. -/
theorem Sound.advance (h : Sound w) {stage : Stage} (hc : w.callers[k]? = some c)
    (hs : c.stage.plain stage = true) (hb : (!stage.busy || c.stage.busy) = true)
    (hr : stage.registered = c.stage.registered) : Sound (w.goTo k c stage) := by
  refine h.goTo hc (h.mayGo hc hs) (fun hbusy => ?_) hr
  rw [hbusy] at hb
  exact hb

/-- **The request is made**, and the caller enters the pipeline. -/
theorem Sound.create (h : Sound w) {relativeDeadline : Option ℤ} {request : InferRequest}
    (hc : w.callers[k]? = some c) (hst : c.stage = .creating relativeDeadline)
    (hid : request.requestId = c.request.requestId) :
    Sound (w.setCaller k { c with request := request, stage := .entered }) := by
  have hp := h.proper k c hc
  have hlate : ¬ c.stage.early = false := by
    rw [hst]
    exact Bool.noConfusion
  refine h.setCaller hc ⟨rfl, hid, fun he => absurd he hlate, fun _ => ?_, id⟩
    ⟨fun b hb => (by cases hb), fun _ => hp.fresh (by rw [hst]; rfl), hp.told, fun o ho => ?_⟩
    (fun hb => by cases hb) (by rw [hst]; rfl) (fun hheld hex => ?_) (Or.inr fun hw => ?_)
  · rw [hst]
    rfl
  · rcases ho with ho | ho <;> cases ho
  · -- The scheduler has nothing of a caller that has offered nothing.
    obtain ⟨r, hr, hk⟩ := hheld
    have hmem := List.mem_of_getElem? (World.ticketOf_eq (h.numbered r hr))
    rw [hk] at hmem
    exact absurd hmem (h.early k c hc (by rw [hst]; rfl))
  · rw [Caller.Watches, hst] at hw
    cases hw.2.1

/-- **A caller gives up waiting** for a request that was not taken up. -/
theorem Sound.abandon (h : Sound w) (hc : w.callers[k]? = some c) (hst : c.stage = .waiting)
    (hd : c.waiter.dispatched = false) :
    Sound (w.setCaller k { c with
      stage := .abandoned, waiter := { c.waiter with abandoned := true } }) := by
  have hp := h.proper k c hc
  have hsync : c.sync = true := hp.side true (by rw [hst]; rfl)
  refine h.setCaller hc ⟨rfl, rfl, fun _ => rfl, fun he => (by cases he), fun _ => rfl⟩
    ⟨fun b hb => hp.side b (by rw [hst]; exact hb), fun he => (by cases he), hp.told, fun o ho => ?_⟩
    (fun _ => by rw [hst]; rfl) (by rw [hst]; rfl) (fun _ _ => ?_) (Or.inr fun hw => ?_)
  · rcases ho with ho | ho <;> cases ho
  · unfold Caller.Expects
    rw [if_pos hsync]
    exact Or.inl rfl
  · have hdis := hw.2.2.1
    rw [hd] at hdis
    cases hdis

/-- **A step of a caller keeps the tables in agreement.** -/
theorem Sound.call (h : Sound w) {t : ℕ → ℤ} {now : ℤ} {throws : Bool}
    (hc : w.callers[k]? = some c) (hfresh : w.Fresh (.call k t now throws))
    (hstep : w.call k c t now throws = some w') : Sound w' := by
  have hp := h.proper k c hc
  obtain ⟨hfreshSync, hfreshAsync⟩ := hfresh c hc
  unfold World.call at hstep
  cases hst : c.stage with
  | creating relativeDeadline =>
    simp only [hst] at hstep
    split at hstep
    · rename_i request hcreate
      obtain rfl := Option.some.inj hstep
      exact h.create hc hst (requestId_createWithRelativeDeadline hcreate)
    · obtain rfl := Option.some.inj hstep
      exact h.advance hc (by rw [hst]; rfl) rfl (by rw [hst]; rfl)
  | entered =>
    simp only [hst] at hstep
    split at hstep
    · obtain rfl := Option.some.inj hstep
      exact (h.freeInputs k).advance hc (by rw [hst]; rfl) rfl (by rw [hst]; rfl)
    · obtain rfl := Option.some.inj hstep
      have hgo : ∀ stage : Stage, stage = .registering ∧ c.sync = true ∨
          stage = .adding ∧ c.sync = false → Sound (w.goTo k c stage) := by
        rintro stage (⟨rfl, hs⟩ | ⟨rfl, hs⟩)
        all_goals
          refine h.goTo hc ⟨Or.inl ?_, ?_, fun _ => ?_, fun b hb => ?_, fun o ho => ?_⟩
            (fun hb => by cases hb) (by rw [hst]; rfl)
          · rw [hst]; exact Stage.noConfusion
          · rw [hst]; exact Stage.noConfusion
          · rw [hst]; rfl
          · rw [hs]; exact Option.some.inj hb
          · rcases ho with ho | ho <;> cases ho
      refine hgo _ ?_
      split
      · rename_i hs
        exact Or.inl ⟨rfl, hs⟩
      · rename_i hs
        exact Or.inr ⟨rfl, by simpa using hs⟩
  | registering =>
    simp only [hst] at hstep
    split at hstep
    · obtain rfl := Option.some.inj hstep
      exact (h.freeInputs k).advance hc (by rw [hst]; rfl) rfl (by rw [hst]; rfl)
    · rename_i hnone
      obtain rfl := Option.some.inj hstep
      exact h.register hc hst (hfreshSync hst (Bool.eq_false_iff.2 hnone))
  | syncAdmitting =>
    simp only [hst] at hstep
    have hsync : c.sync = true := hp.side true (by rw [hst]; rfl)
    split at hstep
    · rename_i v u hasked
      obtain rfl := Option.some.inj hstep
      refine h.admitRequest hc (by rw [hst]; rfl) (by rw [hst]; rfl) (h.mayGo hc (by rw [hst]; rfl))
        rfl (by rw [hst]; rfl) hasked fun _ => ?_
      unfold Caller.Expects
      rw [if_pos hsync]
      exact Or.inr ⟨rfl, by rw [hp.fresh (by rw [hst]; rfl)]⟩
    · rename_i v error hasked
      obtain rfl := Option.some.inj hstep
      exact h.admitRequest hc (by rw [hst]; rfl) (by rw [hst]; rfl) (h.mayGo hc (by rw [hst]; rfl))
        rfl (by rw [hst]; rfl) hasked fun ho => by cases ho
  | unregistering error =>
    simp only [hst] at hstep
    obtain rfl := Option.some.inj hstep
    exact h.goAway hc (h.mayGo hc (by rw [hst]; rfl)) (by rw [hst]; rfl) rfl
  | waiting =>
    simp only [hst] at hstep
    split at hstep
    · rename_i hdone
      split at hstep
      · rename_i outcome ho
        obtain rfl := Option.some.inj hstep
        refine h.goTo hc ⟨Or.inr hdone, by rw [hst]; exact Stage.noConfusion, fun he => (by cases he),
          fun b hb => hp.side b (by rw [hst]; exact hb), fun o hs => ?_⟩ (fun _ => by rw [hst]; rfl)
          (by rw [hst]; rfl)
        rcases hs with hs | hs
        · obtain rfl := Stage.leaving.inj hs
          exact hp.told outcome ho
        · cases hs
      · cases hstep
    · split at hstep
      · rename_i hlate
        obtain rfl := Option.some.inj hstep
        rw [Bool.and_eq_true, Bool.not_eq_true'] at hlate
        exact h.abandon hc hst hlate.1
      · cases hstep
  | abandoned =>
    simp only [hst] at hstep
    have hfind := h.findWaiter_eq hc (by rw [hst]; rfl)
    rw [if_pos hfind] at hstep
    obtain rfl := Option.some.inj hstep
    exact h.goAway hc (h.mayGo hc (by rw [hst]; rfl)) (by rw [hst]; rfl) rfl
  | withdrawing =>
    simp only [hst] at hstep
    obtain rfl := Option.some.inj hstep
    have hb : c.stage.busy = true := by
      rw [hst]
      rfl
    have htrim := h.trimQueue (trimmed_cancel w.scheduler c.request.requestId .clientRequest t)
      w.helpers w.stopping
    have hlogged := htrim.record
      (x := .withdrew k (World.meets w.scheduler c.request.requestId))
      fun m hm => h.meets_eq hc hb hm
    exact hlogged.advance hc (by rw [hst]; rfl) rfl (by rw [hst]; rfl)
  | leaving outcome =>
    simp only [hst] at hstep
    obtain rfl := Option.some.inj hstep
    refine h.goAway hc ⟨Or.inl (by rw [hst]; exact Stage.noConfusion),
      by rw [hst]; exact Stage.noConfusion, fun he => (by cases he),
      fun b hb => hp.side b (by rw [hst]; exact hb), fun o hs => ?_⟩ (by rw [hst]; rfl) rfl
    rcases hs with hs | hs
    · cases hs
    · obtain rfl := Stage.answered.inj hs
      exact hp.leaving outcome (Or.inl hst)
  | adding =>
    simp only [hst] at hstep
    split at hstep
    · rename_i store u hadd
      obtain rfl := Option.some.inj hstep
      exact h.addPending hc hst (hfreshAsync hst (by rw [hadd])) hadd
    · obtain rfl := Option.some.inj hstep
      exact (h.freeInputs k).advance hc (by rw [hst]; rfl) rfl (by rw [hst]; rfl)
  | asyncAdmitting =>
    simp only [hst] at hstep
    have hsync : c.sync = false := hp.side false (by rw [hst]; rfl)
    split at hstep
    · rename_i v u hasked
      obtain rfl := Option.some.inj hstep
      refine h.admitRequest hc (by rw [hst]; rfl) (by rw [hst]; rfl) (h.mayGo hc (by rw [hst]; rfl))
        rfl (by rw [hst]; rfl) hasked fun _ => ?_
      unfold Caller.Expects
      rw [if_neg (by rw [hsync]; exact Bool.noConfusion)]
    · rename_i v error hasked
      obtain rfl := Option.some.inj hstep
      exact h.admitRequest hc (by rw [hst]; rfl) (by rw [hst]; rfl) (h.mayGo hc (by rw [hst]; rfl))
        rfl (by rw [hst]; rfl) hasked fun ho => by cases ho
  | undoing error =>
    simp only [hst] at hstep
    obtain rfl := Option.some.inj hstep
    have hb : c.stage.busy = true := by
      rw [hst]
      rfl
    have hkept := h.keep (h.keyed.cancel c.request.requestId now) w.publishers
    have hlogged := hkept.record
      (x := .undone k ((w.store.find c.request.requestId).map Entry.address)) (by
        intro b hm
        obtain ⟨e, he, rfl⟩ := Option.map_eq_some_iff.1 hm
        exact h.entry_eq hc hb he)
    exact hlogged.advance hc (by rw [hst]; rfl) rfl (by rw [hst]; rfl)
  | answered outcome =>
    simp only [hst] at hstep
    split at hstep
    · obtain rfl := Option.some.inj hstep
      split
      · exact h.advance hc (by rw [hst]; rfl) rfl (by rw [hst]; rfl)
      · exact (h.freeOutputs outcome.origin).advance hc (by rw [hst]; rfl) rfl (by rw [hst]; rfl)
    · obtain rfl := Option.some.inj hstep
      exact h.advance hc (by rw [hst]; rfl) rfl (by rw [hst]; rfl)
  | refused error =>
    simp only [hst] at hstep
    cases hstep
  | accepted =>
    simp only [hst] at hstep
    cases hstep
  | timedOut =>
    simp only [hst] at hstep
    cases hstep
  | ended =>
    simp only [hst] at hstep
    cases hstep

/-! ## The dispatcher -/

theorem Sound.hand_expected (h : Sound w) {r : SchedulerRequest}
    (hr : w.dispatcher.hand = some r) :
    ∃ c, w.callers[w.ticketOf r]? = some c ∧ c.request = r.request ∧ c.Expects :=
  h.expected r (World.mem_held_of_hand hr)

/-- **The waiter the dispatcher finds is the one of its request.** -/
theorem Sound.find (h : Sound w) {r : SchedulerRequest} (hd : w.dispatcher = .taken r) :
    Dispatcher.Serves w (.found r (w.findWaiter r.requestId)) := by
  have hhand : w.dispatcher.hand = some r := by
    rw [hd]
    rfl
  obtain ⟨c, hc, hreq, hex⟩ := h.hand_expected hhand
  cases hf : w.findWaiter r.requestId with
  | none =>
    refine ⟨c, hc, ?_⟩
    unfold Caller.Expects at hex
    split at hex
    · rcases hex with ha | ⟨hst, -⟩
      · exact Or.inr ha
      · have hfound := h.findWaiter_eq hc (by rw [hst]; rfl)
        rw [hreq] at hfound
        exact absurd (hf.symm.trans hfound) (Option.some_ne_none _).symm
    · rename_i hs
      exact Or.inl (by simpa using hs)
  | some j =>
    obtain ⟨p, hp, rfl⟩ := Option.map_eq_some_iff.1 hf
    have hid : p.1 = r.requestId := by simpa using List.find?_some hp
    have hmem := List.mem_of_find?_eq_some hp
    have hm : w.Mentions r.requestId p.2 := by
      rw [← hid]
      exact .waiter hmem
    obtain ⟨x, hx, hr, -⟩ := h.waiters p hmem
    refine ⟨h.agreed _ _ _ hm (.request (World.mem_held_of_hand hhand) rfl rfl), x, hx, ?_⟩
    refine (h.proper _ x hx).side true ?_
    revert hr
    cases x.stage <;> intro hr <;> first | rfl | cases hr

/-- The dispatcher goes on and the scheduler is as it was. -/
theorem Sound.turn (h : Sound w) {d : Dispatcher} (hhand : d.hand = w.dispatcher.hand)
    (hrun : d.running = w.dispatcher.running) (hd : d.Serves w) :
    Sound { w with dispatcher := d } :=
  h.handle (s := w.scheduler) (Or.inl hhand) rfl rfl (by rw [hrun]; exact h.running) hd

/-- **The waiter is told that its request was taken up.** -/
theorem Sound.takeUp (h : Sound w) {r : SchedulerRequest} {j : ℕ}
    (hd : w.dispatcher = .found r (some j)) (hc : w.callers[j]? = some c)
    (ha : c.waiter.abandoned = false) :
    Sound ({ w with dispatcher := .ready r (some j) }.setCaller j
      { c with waiter := { c.waiter with dispatched := true } }) := by
  have hserves := h.serves
  rw [hd] at hserves
  obtain ⟨hj, x, hx, hsync⟩ := hserves
  rw [hc, Option.some.injEq] at hx
  subst hx
  have hhand : w.dispatcher.hand = some r := by
    rw [hd]
    rfl
  obtain ⟨x, hx, -, hex⟩ := h.hand_expected hhand
  rw [← hj, hc, Option.some.injEq] at hx
  subst hx
  obtain ⟨hst, hdone⟩ : c.stage = .waiting ∧ c.waiter.done = false := by
    unfold Caller.Expects at hex
    rw [if_pos hsync] at hex
    rcases hex with hex | hex
    · rw [ha] at hex
      cases hex
    · exact hex
  have hp := h.proper j c hc
  have hwatch : Caller.Watches { c with waiter := { c.waiter with dispatched := true } } :=
    ⟨hsync, hst, rfl, hdone⟩
  have he : Evolves c { c with waiter := { c.waiter with dispatched := true } } :=
    ⟨rfl, rfl, fun _ => rfl, id, id⟩
  have hmoved := h.setCaller hc he
    ⟨hp.side, fun he => (by rw [hst] at he; cases he), hp.told, hp.leaving⟩ id rfl
    (fun _ _ => by
      unfold Caller.Expects
      rw [if_pos hsync]
      exact Or.inr ⟨hst, hdone⟩)
    (Or.inr fun _ => hwatch)
  refine hmoved.turn (d := .ready r (some j)) ?_ ?_ ⟨hj, _, ?_, hwatch⟩
  · exact hhand.symm
  · show some r = w.dispatcher.running
    rw [hd]
    rfl
  · exact List.getElem?_set_self (List.getElem?_eq_some_iff.1 hc).1

/-- **The outcome reaches its waiter.** -/
theorem Sound.deliver (h : Sound w) {r : SchedulerRequest} {j : ℕ}
    {out : Except Error InferResult} (hd : w.dispatcher = .completed r (some j) out) :
    Sound ({ w with dispatcher := .idle }.deliver (w.ticketOf r) j out) := by
  have hserves := h.serves
  rw [hd] at hserves
  obtain ⟨⟨hj, c, hc, hsync, hst, hdis, hdone⟩, hout⟩ := hserves
  have hrun := h.running
  rw [hd] at hrun
  have hidle : Sound { w with dispatcher := .idle } :=
    h.handle (s := w.scheduler) (d := .idle) (Or.inr rfl) rfl rfl hrun trivial
  -- The request is out of hand, and no other is of the same ticket.
  have hgone : ∀ x ∈ w.scheduler.queue, w.ticketOf x ≠ j := by
    intro x hx hxj
    have hap := h.apart
    unfold World.held at hap
    rw [hd, List.map_append] at hap
    refine List.disjoint_of_nodup_append hap (List.mem_map_of_mem hx) ?_
    rw [hxj, hj]
    exact List.mem_cons_self
  have hp := h.proper j c hc
  have hset : Sound (World.setCaller { w with dispatcher := .idle } j { c with
      waiter := { c.waiter with done := true, outcome := some ⟨out, w.ticketOf r⟩ } }) := by
    refine hidle.setCaller hc ⟨rfl, rfl, fun _ => rfl, id, id⟩
      ⟨hp.side, fun he => (by rw [hst] at he; cases he), fun o ho => ?_, hp.leaving⟩ id rfl
      (fun hheld => ?_) (Or.inl rfl)
    · obtain rfl := Option.some.inj ho
      refine ⟨hj.symm, ?_⟩
      rw [hj]
      exact hout
    · obtain ⟨x, hx, hxj⟩ := hheld
      have hmem : x ∈ w.scheduler.queue := by
        rcases List.mem_append.1 hx with hx | hx
        · exact hx
        · cases hx
      exact absurd hxj (hgone x hmem)
  unfold World.deliver
  rw [show ({ w with dispatcher := .idle } : World).callers[j]? = some c from hc]
  exact hset.record (x := .delivered (w.ticketOf r) j) hj

/-- The entry under the id in hand is of the request in hand. -/
theorem Sound.hand_entry (h : Sound w) {r : SchedulerRequest} (hr : w.dispatcher.hand = some r)
    {e : Entry} (he : w.store.find r.requestId = some e) :
    w.owners[e.address]? = some (w.ticketOf r) := by
  obtain ⟨hmem, hid⟩ := h.keyed.find_iff.1 he
  obtain ⟨j, hj, -⟩ := h.stored e hmem
  rw [hj, h.agreed _ j _ (.entry hmem hid hj) (.request (World.mem_held_of_hand hr) rfl rfl)]

/-- What was not stored is told of the entry it met. -/
theorem published_false (ticket : ℕ) (e : Option Entry) :
    World.published ticket e false = .suppressed ticket (e.map Entry.address) := by
  cases e <;> rfl

/-- An outcome is stored in the entry of its request. -/
theorem Sound.store (h : Sound w) {t : AsyncPolicyStore} {e e' : Entry} (ps : List ℕ)
    (hk : w.owners[e.address]? = some k) (hends : Ends w.store t e e')
    (hresult : ∀ result, e'.result = some result → e.result = some result ∨
      ∃ number, w.Outcome k (.ok { result with number := number }))
    (herror : ∀ error, e'.error = some error → e.error = some error ∨ w.Outcome k (.error error)) :
    Sound ({ w with store := t, publishers := ps }.record (.stored k e.address)) := by
  have hset : Sound { w with store := t, publishers := ps } := by
    refine h.restore ps (h.keyed.ends hends) hends.added fun x hx => ?_
    rcases (h.keyed.mem_ends hends).1 hx with rfl | ⟨hx, -⟩
    · refine ⟨e, hends.mem, hends.key, fun j hj hold => ?_⟩
      rw [hk, Option.some.injEq] at hj
      subst hj
      obtain ⟨hid, -⟩ := Prod.mk.inj hends.key
      obtain ⟨c, hc, hsync, hcid⟩ := hold.caller
      refine ⟨⟨c, hc, hsync, hcid.trans hid.symm⟩, fun result hr => ?_, fun error hr => ?_⟩
      · rcases hresult result hr with hr | ho
        · exact hold.result result hr
        · exact ho
      · rcases herror error hr with hr | ho
        · exact hold.error error hr
        · exact ho
    · exact ⟨x, hx, rfl, fun j _ hold => hold⟩
  exact hset.record (x := .stored k e.address) hk

/-- **The outcome reaches the store.** -/
theorem Sound.publish (h : Sound w) {r : SchedulerRequest} {out : Except Error InferResult}
    (hd : w.dispatcher = .completed r none out) (now : ℤ) :
    Sound ({ w with dispatcher := .idle }.publish (w.ticketOf r) r.requestId out now) := by
  have hserves := h.serves
  rw [hd] at hserves
  obtain ⟨hun, hout⟩ := hserves
  have hhand : w.dispatcher.hand = some r := by
    rw [hd]
    rfl
  have hrun := h.running
  rw [hd] at hrun
  have hidle : Sound { w with dispatcher := .idle } :=
    h.handle (s := w.scheduler) (d := .idle) (Or.inr rfl) rfl rfl hrun trivial
  have hsup : ∀ {t : AsyncPolicyStore} (ps : List ℕ), Kept w.store t →
      Sound (World.record { w with dispatcher := .idle, store := t, publishers := ps }
        (World.published (w.ticketOf r) (w.store.find r.requestId) false)) := by
    intro t ps ht
    rw [published_false]
    refine (hidle.keep ht ps).record ⟨fun b hb => ?_, hun⟩
    obtain ⟨e, he, rfl⟩ := Option.map_eq_some_iff.1 hb
    exact h.hand_entry hhand he
  unfold World.publish
  cases out with
  | ok result =>
    dsimp only
    rcases h.keyed.publishResult r.requestId result now with ⟨hno, hk, -⟩ |
      ⟨e, e', hfind, hyes, hends, hres, herr⟩
    · rw [hno]
      exact hsup _ hk
    · rw [hyes, hfind]
      refine hidle.store _ (h.hand_entry hhand hfind) hends (fun x hx => ?_) (fun x hx => ?_)
      · rw [hres, Option.some.injEq] at hx
        subst hx
        exact Or.inr ⟨result.number, hout⟩
      · exact Or.inl (herr ▸ hx)
  | error error =>
    dsimp only
    rcases h.keyed.publishFailure r.requestId error now with ⟨hno, hk, -⟩ |
      ⟨e, e', hfind, hyes, hends, hres, herr⟩
    · rw [hno]
      exact hsup w.publishers hk
    · rw [hyes, hfind]
      refine hidle.store w.publishers (h.hand_entry hhand hfind) hends (fun x hx => ?_)
        (fun x hx => ?_)
      · exact Or.inl (hres ▸ hx)
      · rw [herr, Option.some.injEq] at hx
        subst hx
        exact Or.inr hout

/-- **A step of the dispatcher keeps the tables in agreement.** -/
theorem Sound.dispatch (h : Sound w) {now : ℤ} (hstep : w.dispatch now = some w') : Sound w' := by
  have hserves := h.serves
  have hrun := h.running
  unfold World.dispatch at hstep
  cases hd : w.dispatcher with
  | idle =>
    simp only [hd] at hstep
    cases hstep
  | ready r j =>
    simp only [hd] at hstep
    cases hstep
  | taken r =>
    simp only [hd] at hstep
    obtain rfl := Option.some.inj hstep
    exact h.turn (by rw [hd]; rfl) (by rw [hd]; rfl) (h.find hd)
  | found r j =>
    rw [hd] at hserves
    cases j with
    | none =>
      simp only [hd] at hstep
      obtain rfl := Option.some.inj hstep
      have hkept := h.keep (h.keyed.markInFlight r.requestId) w.publishers
      exact hkept.turn (d := .ready r none) (by rw [hd]; rfl) (by rw [hd]; rfl) hserves
    | some j =>
      simp only [hd] at hstep
      split at hstep
      · cases hstep
      · rename_i c hc
        obtain ⟨hj, -⟩ := hserves
        split at hstep
        · rename_i ha
          obtain rfl := Option.some.inj hstep
          have hgone : ∃ c, w.callers[w.ticketOf r]? = some c ∧ c.waiter.abandoned = true := by
            rw [← hj]
            exact ⟨c, hc, ha⟩
          have hturn := h.turn (d := .dropping r) (by rw [hd]; rfl) (by rw [hd]; rfl) hgone
          exact hturn.record (x := .dropped (w.ticketOf r) j) ⟨hj, hgone⟩
        · rename_i ha
          obtain rfl := Option.some.inj hstep
          exact h.takeUp hd hc (by simpa using ha)
  | dropping r =>
    rw [hd] at hserves
    simp only [hd] at hstep
    obtain rfl := Option.some.inj hstep
    exact (h.turn (d := .dropped r) (by rw [hd]; rfl) (by rw [hd]; rfl) hserves).freeInputs _
  | dropped r =>
    rw [hd] at hrun
    simp only [hd] at hstep
    obtain rfl := Option.some.inj hstep
    obtain ⟨hruns, hq, ho, -⟩ := onCompletion_cases hrun .failure (some .timeout) now
    exact h.handle (d := .idle) (Or.inr rfl) hq ho hruns trivial
  | inferred r j out =>
    rw [hd] at hserves
    simp only [hd] at hstep
    obtain rfl := Option.some.inj hstep
    exact (h.turn (d := .released r j out) (by rw [hd]; rfl) (by rw [hd]; rfl) hserves).freeInputs _
  | released r j out =>
    rw [hd] at hserves hrun
    obtain ⟨hattends, hlog⟩ := hserves
    simp only [hd] at hstep
    obtain ⟨hruns, hq, ho, hans⟩ := onCompletion_cases hrun (World.completionOf out).1
      (World.completionOf out).2 now
    have hdone : ∀ o, Completes out o → Sound { w with
        dispatcher := .completed r j o
        scheduler := (w.scheduler.onCompletion r.requestId (World.completionOf out).1
          (World.completionOf out).2 now).1 } := fun o hco =>
      h.handle (Or.inl (by rw [hd]; rfl)) hq ho hruns ⟨hattends, out, hlog, hco⟩
    split at hstep
    · rename_i result error heq
      obtain rfl := Option.some.inj hstep
      rcases hans with ⟨hok, -⟩ | ⟨herr, -⟩
      · rw [hok] at heq
        cases heq
      · rw [herr] at heq
        obtain rfl := Except.error.inj heq
        exact (hdone _ (Or.inr ⟨⟨result, rfl⟩, rfl⟩)).freeOutputs _
    · obtain rfl := Option.some.inj hstep
      exact hdone _ (Or.inl rfl)
  | completed r j out =>
    cases j with
    | none =>
      simp only [hd] at hstep
      obtain rfl := Option.some.inj hstep
      exact h.publish hd now
    | some j =>
      simp only [hd] at hstep
      obtain rfl := Option.some.inj hstep
      exact h.deliver hd

/-! ## The rest of the worker -/

/-- **A handler comes in.** -/
theorem Sound.enter (h : Sound w) (request : InferRequest) (sync : Bool) (d : Option ℤ) :
    Sound { w with callers := w.callers ++ [⟨request, sync, .creating d, {}⟩] } := by
  have hmem : ∀ {j : ℕ} {x : Caller},
      (w.callers ++ [⟨request, sync, .creating d, {}⟩])[j]? = some x →
      w.callers[j]? = some x ∨ j = w.callers.length ∧ x = ⟨request, sync, .creating d, {}⟩ := by
    intro j x hx
    rcases Nat.lt_trichotomy j w.callers.length with hlt | rfl | hgt
    · rw [List.getElem?_append_left hlt] at hx
      exact Or.inl hx
    · rw [List.getElem?_concat_length, Option.some.injEq] at hx
      exact Or.inr ⟨rfl, hx.symm⟩
    · rw [List.getElem?_eq_none (by rw [List.length_append, List.length_singleton]; omega)] at hx
      cases hx
  have hold : ∀ {j : ℕ} {x : Caller}, w.callers[j]? = some x →
      (w.callers ++ [⟨request, sync, .creating d, {}⟩])[j]? = some x := by
    intro j x hx
    rw [List.getElem?_append_left (List.getElem?_eq_some_iff.1 hx).1]
    exact hx
  have hext : Extends w { w with callers := w.callers ++ [⟨request, sync, .creating d, {}⟩] } :=
    ⟨List.prefix_refl _, List.prefix_refl _, fun _ => id,
      fun j x hx => ⟨x, hold hx, rfl, rfl, id⟩⟩
  have hmen : ∀ requestId j, World.Mentions { w with
      callers := w.callers ++ [⟨request, sync, .creating d, {}⟩] } requestId j →
      w.Mentions requestId j := by
    intro requestId j hm
    rcases hm with hw | ⟨hx, hb, hi⟩ | ⟨hr, hi, hj⟩ | ⟨he, hi, hj⟩
    · exact .waiter hw
    · rcases hmem hx with hx | ⟨-, rfl⟩
      · exact .caller hx hb hi
      · cases hb
    · exact .request hr hi hj
    · exact .entry he hi hj
  refine { h with
    issued := fun j hj => ?_
    early := fun j x hx hearly hj => ?_
    agreed := fun requestId i j hi hj => h.agreed requestId i j (hmen _ _ hi) (hmen _ _ hj)
    registered := fun j x hx hr => ?_
    waiters := fun p hp => ?_
    expected := fun r hr => ?_
    serves := hext.serves h.serves h.hand_numbered fun j x hx hw => ⟨x, hold hx, hw⟩
    proper := fun j x hx => ?_
    stored := fun e he => ?_
    logged := fun x hx => hext.own (h.logged x hx) }
  · have := h.issued j hj
    show j < (w.callers ++ [_]).length
    rw [List.length_append]
    omega
  · rcases hmem hx with hx | ⟨rfl, -⟩
    · exact h.early j x hx hearly hj
    · exact absurd (h.issued _ hj) (lt_irrefl _)
  · rcases hmem hx with hx | ⟨-, rfl⟩
    · exact h.registered j x hx hr
    · cases hr
  · obtain ⟨x, hx, hr, hid⟩ := h.waiters p hp
    exact ⟨x, hold hx, hr, hid⟩
  · obtain ⟨x, hx, hreq, hex⟩ := h.expected r hr
    exact ⟨x, hold hx, hreq, hex⟩
  · rcases hmem hx with hx | ⟨-, rfl⟩
    · exact hext.proper (h.proper j x hx)
    · refine ⟨fun b hb => (by cases hb), fun _ => rfl, fun o ho => (by cases ho), fun o ho => ?_⟩
      rcases ho with ho | ho <;> cases ho
  · obtain ⟨j, hj, hold'⟩ := h.stored e he
    exact ⟨j, hj, hext.holds hold'⟩

theorem Sound.next (h : Sound w) {t : ℕ → ℤ} {now : ℤ} (hstep : w.step (.next t now) = some w') :
    Sound w' := by
  simp only [World.step] at hstep
  split at hstep
  · rename_i hidle
    have hrun := h.running
    rw [hidle] at hrun
    rcases next_cases w.scheduler t now with ⟨hnone, hs⟩ | ⟨r, hsome, hq, ho, hr⟩
    · split at hstep
      · rename_i s r heq
        rw [heq] at hnone
        cases hnone
      · rename_i s heq
        obtain rfl := Option.some.inj hstep
        rw [heq] at hs
        obtain rfl : s = _ := hs
        exact h.trimQueue (trimmed_expireDue w.scheduler t) w.helpers w.stopping
    · split at hstep
      · rename_i s r' heq
        obtain rfl := Option.some.inj hstep
        rw [heq] at hsome hq ho hr
        obtain rfl := Option.some.inj hsome
        refine h.take hidle ?_ ho (hr hrun).1
        rw [← hq]
        exact (trimmed_expireDue w.scheduler t).queue
      · rename_i s heq
        rw [heq] at hsome
        cases hsome
  · cases hstep

/-- A helper goes on. -/
theorem Sound.help (h : Sound w) (t : ℕ → ℤ) (now : ℤ) (throws : Bool) (x : Helper)
    (helpers : List Helper) : Sound ({ w with helpers := helpers }.help t now throws x) := by
  have hsame : Sound { w with helpers := helpers } :=
    h.trimQueue (Trimmed.refl _) helpers w.stopping
  cases x with
  | cancelling requestId =>
    exact h.trimQueue (trimmed_cancel w.scheduler requestId .clientRequest t) helpers w.stopping
  | staling ids =>
    cases ids with
    | nil => exact hsame
    | cons requestId ids =>
      exact h.trimQueue (trimmed_cancel w.scheduler requestId .staleSequence t) _ w.stopping
  | stoppingDown =>
    exact h.trim (Trimmed.refl _) (h.keyed.cancelAll now) helpers w.stopping
  | rendering k result =>
    show Sound (if throws then _ else _)
    split
    · exact hsame
    · exact hsame.freeOutputs k

/-- **Every step keeps the tables in agreement**, where a request that
takes an id takes a fresh one. -/
theorem Sound.step (h : Sound w) {a : Action} (hfresh : w.Fresh a) (hstep : w.step a = some w') :
    Sound w' := by
  cases a with
  | infer request relativeDeadline =>
    obtain rfl := Option.some.inj hstep
    exact h.enter request true relativeDeadline
  | policyInfer request relativeDeadline =>
    obtain rfl := Option.some.inj hstep
    exact h.enter request false relativeDeadline
  | call k t now throws =>
    simp only [World.step] at hstep
    split at hstep
    · rename_i c hc
      exact h.call hc hfresh hstep
    · cases hstep
  | next t now => exact h.next hstep
  | inferDone out =>
    simp only [World.step] at hstep
    split at hstep
    · rename_i r j hd
      obtain rfl := Option.some.inj hstep
      have hserves := h.serves
      rw [hd] at hserves
      have hlog := h.record (x := .inferred (w.ticketOf r) out) trivial
      refine hlog.turn (d := .inferred r j out) ?_ ?_ ⟨?_, List.mem_append_right _ (by
        exact List.mem_cons_self)⟩
      · show some r = w.dispatcher.hand
        rw [hd]
        rfl
      · show some r = w.dispatcher.running
        rw [hd]
        rfl
      · cases j with
        | none => exact hserves
        | some j => exact hserves
    · cases hstep
  | dispatch now => exact h.dispatch hstep
  | policyCancel requestId now =>
    obtain rfl := Option.some.inj hstep
    exact h.trim (Trimmed.refl _) (h.keyed.cancel requestId now) _ w.stopping
  | policyResult requestId =>
    have hk := h.keyed.takeCompletedResult requestId
    simp only [World.step] at hstep
    split at hstep
    · rename_i store result heq
      obtain rfl := Option.some.inj hstep
      rw [heq] at hk
      exact h.trim (Trimmed.refl _) hk _ w.stopping
    · obtain rfl := Option.some.inj hstep
      exact h
  | markStaleBefore q now =>
    obtain rfl := Option.some.inj hstep
    exact h.trim (Trimmed.refl _) (h.keyed.markStaleBeforeSequence q now) _ w.stopping
  | help i t now throws =>
    simp only [World.step] at hstep
    split at hstep
    · obtain rfl := Option.some.inj hstep
      exact h.help t now throws _ _
    · cases hstep
  | expireDue t =>
    obtain rfl := Option.some.inj hstep
    exact h.trimQueue (trimmed_expireDue w.scheduler t) w.helpers w.stopping
  | onPressure source severity stamp now =>
    obtain rfl := Option.some.inj hstep
    exact h.trimQueue (trimmed_onPressure w.scheduler source severity stamp now) w.helpers w.stopping
  | enforceBounds now =>
    obtain rfl := Option.some.inj hstep
    exact h.trim (Trimmed.refl _) (h.keyed.enforceBounds now) w.helpers w.stopping
  | shutdown t u =>
    obtain rfl := Option.some.inj hstep
    exact h.trimQueue (trimmed_shutdown w.scheduler t u) _ w.stopping
  | cancelAll now =>
    obtain rfl := Option.some.inj hstep
    exact h.trim (Trimmed.refl _) (h.keyed.cancelAll now) w.helpers w.stopping
  | setStopping stopping =>
    obtain rfl := Option.some.inj hstep
    exact h.trimQueue (Trimmed.refl _) w.helpers stopping

/-! ## Runs -/

/-- A pipeline over a new scheduler and a new store. -/
def World.Started (w : World) : Prop :=
  ∃ config bufferManager s storeConfig, FifoScheduler.create config bufferManager = .ok s ∧
    w = { scheduler := s, store := { config := storeConfig } }

/-- What `create` hands out is empty. -/
theorem tables_create {config : SchedulerConfig} {bufferManager : Bool} {s : FifoScheduler}
    (h : FifoScheduler.create config bufferManager = .ok s) :
    s = { config := config, bufferManager := bufferManager } := by
  unfold FifoScheduler.create at h
  split_ifs at h
  exact (Except.ok.inj h).symm

theorem sound_started (h : w.Started) : Sound w := by
  obtain ⟨config, bufferManager, s, storeConfig, hs, rfl⟩ := h
  obtain rfl := tables_create hs
  refine ⟨rfl, rfl, ?_, ?_, List.nodup_nil, ?_, ?_, ?_, ?_, ?_, trivial, ?_, keyed_new _, ?_, ?_,
    ⟨rfl, rfl⟩⟩
  · exact fun k hk => by cases hk
  · exact fun r hr => by cases hr
  · exact fun k c hc => by cases hc
  · rintro requestId j k (hm | ⟨hm, -⟩ | ⟨hm, -⟩ | ⟨hm, -⟩) <;> cases hm
  · exact fun k c hc => by cases hc
  · exact fun p hp => by cases hp
  · exact fun r hr => by cases hr
  · exact fun k c hc => by cases hc
  · exact fun e he => by cases he
  · exact fun x hx => by cases hx

theorem sound_run {w₀ : World} (h₀ : w₀.Started) (hrun : Run World.step World.Fresh w₀ w) :
    Sound w :=
  hrun.invariant (sound_started h₀) fun _ _ _ h hfresh hstep => h.step hfresh hstep

/-- **Every outcome is of its own request.** In every run of the pipeline
in which a request that takes an id takes one of which nothing is left,
what `run_sync` is to return is the outcome of the infer call for its
request, what an entry of the store holds is the outcome of the infer call
for the request it was added for, and no outcome was delivered to, stored
for or lost to another request. -/
theorem outcomes_own {w₀ : World} (h₀ : w₀.Started) (hrun : Run World.step World.Fresh w₀ w) :
    (∀ (k : ℕ) (c : Caller) (o : SyncOutcome), w.callers[k]? = some c →
      c.stage = .leaving o ∨ c.stage = .answered o → o.origin = k ∧ w.Outcome k o.result) ∧
    (∀ e ∈ w.store.entries, ∃ k, w.owners[e.address]? = some k ∧ w.Holds k e) ∧
    (∀ r j, w.dispatcher = .ready r j →
      ∃ c, w.callers[w.ticketOf r]? = some c ∧ c.request = r.request) ∧
    ∀ x ∈ w.log, x.Own w := by
  have h := sound_run h₀ hrun
  refine ⟨fun k c o hc ho => (h.proper k c hc).leaving o ho, h.stored, fun r j hd => ?_, h.logged⟩
  obtain ⟨c, hc, hreq, -⟩ := h.hand_expected (r := r) (by rw [hd]; rfl)
  exact ⟨c, hc, hreq⟩

instance (w : World) : DecidablePred w.Fresh
  | .call k t now throws =>
    match hc : w.callers[k]? with
    | none => isTrue fun c h => by rw [hc] at h; cases h
    | some c => decidable_of_iff
        ((c.stage = .registering →
          (w.syncWaiters.any fun p => p.1 = c.request.requestId) = false →
            c.request.requestId ∉ w.idsInUse) ∧
        (c.stage = .adding → (w.store.addPending c.request now).2 = .ok () →
          c.request.requestId ∉ w.idsInUse))
        ⟨fun h c' hc' => by
          rw [hc, Option.some.injEq] at hc'
          subst hc'
          exact h, fun h => h c hc⟩
  | .infer _ _ | .policyInfer _ _ | .next _ _ | .inferDone _ | .dispatch _ | .policyCancel _ _
  | .policyResult _ | .markStaleBefore _ _ | .help _ _ _ _ | .expireDue _ | .onPressure _ _ _ _
  | .enforceBounds _ | .shutdown _ _ | .cancelAll _ | .setStopping _ => isTrue trivial

/-- A worker with the default bounds. -/
def sampleWorld : World :=
  { scheduler := { config := {}, bufferManager := true }, store := { config := {} } }

theorem started_sampleWorld : sampleWorld.Started :=
  ⟨{}, true, { config := {}, bufferManager := true }, {}, rfl, rfl⟩

/-- A request of an id. -/
def sampleRequest (requestId : String) : InferRequest :=
  ⟨requestId, "policy", [⟨"x", 1⟩], {}, none⟩

/-- A caller goes on as often as it can without waiting. -/
def sampleCall (ticket times : ℕ) : List Action :=
  List.replicate times (.call ticket (fun _ => 5) 5 false)

/-- The dispatcher takes a request and completes it. -/
def sampleDispatch (requestId : String) : List Action :=
  [.next (fun _ => 6) 6, .dispatch 6, .dispatch 6,
    .inferDone (.ok ⟨requestId, .ok [⟨"y", 2⟩], 0⟩), .dispatch 7, .dispatch 7, .dispatch 7]

set_option maxRecDepth 8000 in
theorem outcomes_own_sample : ∃ w, Run World.step World.Fresh sampleWorld w ∧
    (∃ c o, w.callers[1]? = some c ∧ c.stage = .leaving o ∧ o.origin = 1 ∧ w.Outcome 1 o.result) ∧
    ∀ e ∈ w.store.entries, ∃ k, w.owners[e.address]? = some k ∧ w.Holds k e := by
  obtain ⟨w, hw⟩ : ∃ w, exec (fun w a => if decide (w.Fresh a) then World.step w a else none)
      sampleWorld ([.policyInfer (sampleRequest "a") none, .infer (sampleRequest "b") none] ++
        sampleCall 0 4 ++ sampleCall 1 4 ++ sampleDispatch "a" ++ sampleDispatch "b" ++
        sampleCall 1 1) = some w := ⟨_, rfl⟩
  have hrun : Run World.step World.Fresh sampleWorld w :=
    Run.of_checked (fun _ _ h => of_decide_eq_true h) hw
  have h := outcomes_own started_sampleWorld hrun
  refine ⟨w, hrun, ?_, h.2.1⟩
  obtain ⟨c, o, hc, ho⟩ : ∃ c o, w.callers[1]? = some c ∧ c.stage = .leaving o := by
    cases hw
    exact ⟨_, _, rfl, rfl⟩
  exact ⟨c, o, hc, ho, h.1 1 c o hc (Or.inl ho)⟩

set_option maxRecDepth 8000 in
/-- **An outcome that goes to another request.** Before an async call has
handed its request to the scheduler, a sync call registers under the same
id. The dispatcher takes the async request for the sync one, and the sync
call returns that one's outcome as its own. -/
theorem outcome_misdelivered : ¬ ∀ w₀ w : World, w₀.Started → Run World.step Free w₀ w →
    ∀ (k : ℕ) (c : Caller) (o : SyncOutcome), w.callers[k]? = some c →
      c.stage = .leaving o ∨ c.stage = .answered o → o.origin = k ∧ w.Outcome k o.result := by
  intro hall
  obtain ⟨w, hw⟩ : ∃ w, exec World.step sampleWorld
      ([.policyInfer (sampleRequest "a") none] ++ sampleCall 0 3 ++
        [.infer (sampleRequest "a") none] ++ sampleCall 1 3 ++ sampleCall 0 1 ++
        sampleDispatch "a" ++ sampleCall 1 2) = some w := ⟨_, rfl⟩
  obtain ⟨c, o, hc, ho, hne⟩ : ∃ c o, w.callers[1]? = some c ∧ c.stage = .leaving o ∧
      o.origin ≠ 1 := by
    cases hw
    exact ⟨_, _, rfl, rfl, by decide⟩
  exact hne (hall sampleWorld w started_sampleWorld (Run.of_exec hw) 1 c o hc (Or.inl ho)).1

end Pipeline

end Tensorplate
