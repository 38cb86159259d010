import Tensorplate.Pipeline.Sound

/-!
# The parts of a step

A step of the pipeline is made of a few moves: requests and entries go, an
event is recorded, a caller goes on with or without its waiter, a request
is handed to the scheduler, an entry is added, the dispatcher goes on, an
outcome is stored. Each keeps the tables in agreement.
-/

namespace Tensorplate

namespace Pipeline

open Scheduler AsyncPolicy

variable {w w' : World} {k : ℕ} {c c' : Caller}

theorem Stage.busy_of_registered {stage : Stage} (h : stage.registered = true) :
    stage.busy = true := by
  cases stage <;> first | exact h | rfl

theorem Sound.hand_numbered (h : Sound w) (r : SchedulerRequest)
    (hr : w.dispatcher.hand = some r) : r.number < w.tickets.length :=
  h.numbered r (World.mem_held_of_hand hr)

/-- What is in flight is what the dispatcher has in hand. -/
theorem Sound.record_hand (h : Sound w) {record : InFlightRecord}
    (hrec : record ∈ w.scheduler.inFlight) :
    ∃ r, w.dispatcher.running = some r ∧ record.requestId = r.requestId ∧
      record.number = r.number := by
  have hrun := h.running
  cases hr : w.dispatcher.running with
  | none =>
    rw [hr] at hrun
    rw [hrun.1] at hrec
    cases hrec
  | some r =>
    rw [hr] at hrun
    rcases hrun with ⟨other, hi, hid, hnum, -⟩ | ⟨hi, -⟩
    · rw [hi, List.mem_singleton] at hrec
      subst hrec
      exact ⟨r, rfl, hid, hnum⟩
    · rw [hi] at hrec
      cases hrec

/-! ## Requests and entries go -/

/-- **The store changes**: no entry is added, and what an entry holds is of
its owner. -/
theorem Sound.restore (h : Sound w) {t : AsyncPolicyStore} (ps : List ℕ) (hkeyed : Keyed t)
    (hadded : t.added = w.store.added)
    (hentries : ∀ e' ∈ t.entries, ∃ e ∈ w.store.entries, e'.key = e.key ∧
      ∀ j, w.owners[e.address]? = some j → w.Holds j e → w.Holds j e') :
    Sound { w with store := t, publishers := ps } := by
  have hext : Extends w { w with store := t, publishers := ps } :=
    Extends.same_callers (List.prefix_refl _) (List.prefix_refl _) (fun _ => id) rfl
  have hmen : ∀ requestId j, World.Mentions { w with store := t, publishers := ps } requestId j →
      w.Mentions requestId j := by
    intro requestId j hm
    rcases hm with hw | ⟨hc, hb, hid⟩ | ⟨hr, hid, hk⟩ | ⟨he, hid, hk⟩
    · exact .waiter hw
    · exact .caller hc hb hid
    · exact .request hr hid hk
    · obtain ⟨e, hmem, hkey, -⟩ := hentries _ he
      obtain ⟨hid', haddr⟩ := Prod.mk.inj hkey
      change w.owners[_]? = some j at hk
      rw [haddr] at hk
      exact .entry hmem (hid'.symm.trans hid) hk
  refine { h with
    added := h.added.trans hadded.symm
    agreed := fun requestId i j hi hj => h.agreed requestId i j (hmen _ _ hi) (hmen _ _ hj)
    serves := hext.serves h.serves h.hand_numbered fun k c hc hw => ⟨c, hc, hw⟩
    proper := fun k c hc => hext.proper (h.proper k c hc)
    keyed := hkeyed
    stored := fun e' he' => ?_
    logged := fun x hx => hext.own (h.logged x hx) }
  obtain ⟨e, he, hkey, hsame⟩ := hentries e' he'
  obtain ⟨j, hj, hold⟩ := h.stored e he
  obtain ⟨-, haddr⟩ := Prod.mk.inj hkey
  exact ⟨j, by rw [haddr]; exact hj, hext.holds (hsame j hj hold)⟩

/-- A later form of an entry holds no more than it did. -/
theorem World.Holds.later {e e' : Entry} (h : w.Holds k e) (hl : Later e e') : w.Holds k e' := by
  obtain ⟨hid, -⟩ := Prod.mk.inj hl.key
  refine ⟨?_, fun result hr => ?_, fun error hr => ?_⟩
  · obtain ⟨c, hc, hsync, hcid⟩ := h.caller
    exact ⟨c, hc, hsync, hcid.trans hid.symm⟩
  · rcases hl.result with hsame | hnone
    · exact h.result result (hsame ▸ hr)
    · rw [hnone] at hr
      cases hr
  · exact h.error error (hl.error ▸ hr)

theorem Sound.keep (h : Sound w) {t : AsyncPolicyStore} (ht : Kept w.store t) (ps : List ℕ) :
    Sound { w with store := t, publishers := ps } := by
  refine h.restore ps (h.keyed.kept ht) ht.added fun e' he' => ?_
  obtain ⟨e, he, hl⟩ := ht.entries e' he'
  exact ⟨e, he, hl.key, fun j _ hold => hold.later hl⟩

/-- What only drops requests keeps the tables in agreement. -/
theorem Sound.trimQueue (h : Sound w) {s : FifoScheduler} (hs : Trimmed w.scheduler s)
    (helpers : List Helper) (stopping : Bool) :
    Sound { w with scheduler := s, helpers := helpers, stopping := stopping } := by
  have hheld : (World.held { w with
      scheduler := s, helpers := helpers, stopping := stopping }).Sublist w.held :=
    hs.queue.append (List.Sublist.refl _)
  have hext : Extends w { w with scheduler := s, helpers := helpers, stopping := stopping } :=
    Extends.same_callers (List.prefix_refl _) (List.prefix_refl _) (fun _ => id) rfl
  have hmen : ∀ requestId j, World.Mentions { w with
      scheduler := s, helpers := helpers, stopping := stopping } requestId j →
      w.Mentions requestId j := by
    intro requestId j hm
    rcases hm with hw | ⟨hc, hb, hid⟩ | ⟨hr, hid, hk⟩ | ⟨he, hid, hk⟩
    · exact .waiter hw
    · exact .caller hc hb hid
    · exact .request (hheld.subset hr) hid hk
    · exact .entry he hid hk
  refine { h with
    offered := h.offered.trans hs.offered.symm
    numbered := fun r hr => h.numbered r (hheld.subset hr)
    apart := (hheld.map _).nodup h.apart
    agreed := fun requestId i j hi hj => h.agreed requestId i j (hmen _ _ hi) (hmen _ _ hj)
    expected := fun r hr => h.expected r (hheld.subset hr)
    serves := hext.serves h.serves h.hand_numbered fun k c hc hw => ⟨c, hc, hw⟩
    proper := fun k c hc => hext.proper (h.proper k c hc)
    stored := fun e he => ?_
    logged := fun x hx => hext.own (h.logged x hx)
    running := hs.runs _ h.running }
  obtain ⟨k, hk, hold⟩ := h.stored e he
  exact ⟨k, hk, hext.holds hold⟩

/-- **What only drops requests and entries keeps the tables in agreement.** -/
theorem Sound.trim (h : Sound w) {s : FifoScheduler} {t : AsyncPolicyStore}
    (hs : Trimmed w.scheduler s) (ht : Kept w.store t) (helpers : List Helper) (stopping : Bool) :
    Sound { w with scheduler := s, store := t, helpers := helpers, stopping := stopping } :=
  Sound.trimQueue (h.keep ht w.publishers) hs helpers stopping

/-! ## An event is recorded -/

theorem extends_record (w : World) (x : Event) : Extends w (w.record x) :=
  Extends.same_callers (List.prefix_refl _) (List.prefix_refl _)
    (fun _ hy => List.mem_append_left _ hy) rfl

/-- The tables are not told of the log. -/
theorem mentions_record {x : Event} {requestId : String}
    (h : (w.record x).Mentions requestId k) : w.Mentions requestId k := by
  rcases h with h | ⟨h, hb, hid⟩ | ⟨h, hid, hk⟩ | ⟨h, hid, hk⟩
  · exact .waiter h
  · exact .caller h hb hid
  · exact .request h hid hk
  · exact .entry h hid hk

theorem Sound.record (h : Sound w) {x : Event} (hx : x.Own w) : Sound (w.record x) := by
  have hext := extends_record w x
  refine { h with
    agreed := fun requestId i j hi hj =>
      h.agreed requestId i j (mentions_record hi) (mentions_record hj)
    serves := hext.serves h.serves h.hand_numbered fun k c hc hw => ⟨c, hc, hw⟩
    proper := fun k c hc => hext.proper (h.proper k c hc)
    stored := fun e he => ?_
    logged := fun y hy => ?_ }
  · obtain ⟨k, hk, hold⟩ := h.stored e he
    exact ⟨k, hk, hext.holds hold⟩
  · rcases List.mem_append.1 hy with hy | hy
    · exact hext.own (h.logged y hy)
    · rw [List.mem_singleton] at hy
      subst hy
      exact hext.own hx

/-! ## A caller goes on -/

/-- What a caller keeps wherever it goes. -/
structure Evolves (c c' : Caller) : Prop where
  sync : c'.sync = c.sync
  requestId : c'.request.requestId = c.request.requestId
  request : c.stage.early = false → c'.request = c.request
  early : c'.stage.early = true → c.stage.early = true
  abandoned : c.waiter.abandoned = true → c'.waiter.abandoned = true

/-- The world with another list of waiters and the caller of `k` as `c'`. -/
def World.move (w : World) (k : ℕ) (c' : Caller) (waiters : List (String × ℕ)) : World :=
  { w with callers := w.callers.set k c', syncWaiters := waiters }

theorem callers_move {ws : List (String × ℕ)} (hc : w.callers[k]? = some c) {j : ℕ} {x : Caller} :
    (w.move k c' ws).callers[j]? = some x ↔ j = k ∧ x = c' ∨ j ≠ k ∧ w.callers[j]? = some x := by
  have hlt : k < w.callers.length := (List.getElem?_eq_some_iff.1 hc).1
  show (w.callers.set k c')[j]? = some x ↔ _
  rcases eq_or_ne j k with rfl | hne
  · rw [List.getElem?_set_self hlt]
    simp only [Option.some.injEq, true_and, ne_eq, not_true_eq_false, false_and, or_false]
    exact eq_comm
  · rw [List.getElem?_set_ne (Ne.symm hne)]
    simp [hne]

theorem extends_move {ws : List (String × ℕ)} (hc : w.callers[k]? = some c)
    (he : Evolves c c') : Extends w (w.move k c' ws) := by
  refine ⟨List.prefix_refl _, List.prefix_refl _, fun _ => id, fun j x hx => ?_⟩
  rcases eq_or_ne j k with rfl | hne
  · rw [hc, Option.some.injEq] at hx
    subst hx
    exact ⟨c', (callers_move hc).2 (Or.inl ⟨rfl, rfl⟩), he.sync, he.requestId, he.abandoned⟩
  · exact ⟨x, (callers_move hc).2 (Or.inr ⟨hne, hx⟩), rfl, rfl, id⟩

/-- **A caller goes on**, and its waiter comes or goes with it. Under an id
it did not use before, nothing may be left. -/
theorem Sound.move (h : Sound w) {ws : List (String × ℕ)} (hc : w.callers[k]? = some c)
    (he : Evolves c c') (hp : c'.Proper w k)
    (hbusy : c'.stage.busy = true →
      c.stage.busy = true ∨ ∀ j, ¬ w.Mentions c.request.requestId j)
    (hws : ∀ p ∈ ws, p ∈ w.syncWaiters ∧ p.2 ≠ k ∨
      p = (c.request.requestId, k) ∧ c'.stage.registered = true)
    (hkeep : ∀ p ∈ w.syncWaiters, p.2 ≠ k → p ∈ ws)
    (hreg : c'.stage.registered = true → (c.request.requestId, k) ∈ ws)
    (hexp : (∃ r ∈ w.held, w.ticketOf r = k) → c.Expects → c'.Expects)
    (hwatch : w.dispatcher = .idle ∨ (c.Watches → c'.Watches)) : Sound (w.move k c' ws) := by
  have hext : Extends w (w.move k c' ws) := extends_move hc he
  -- What is mentioned was mentioned before, or is of the caller itself.
  have hmen : ∀ requestId j, (w.move k c' ws).Mentions requestId j → w.Mentions requestId j ∨
      j = k ∧ requestId = c.request.requestId ∧ c'.stage.busy = true := by
    intro requestId j hm
    rcases hm with hw | ⟨hx, hb, hid⟩ | ⟨hr, hid, hk⟩ | ⟨hen, hid, hk⟩
    · rcases hws _ hw with ⟨hw, -⟩ | ⟨hpe, hr⟩
      · exact Or.inl (.waiter hw)
      · obtain ⟨rfl, rfl⟩ := Prod.mk.inj hpe
        exact Or.inr ⟨rfl, rfl, Stage.busy_of_registered hr⟩
    · rcases (callers_move hc).1 hx with ⟨rfl, rfl⟩ | ⟨hne, hx⟩
      · exact Or.inr ⟨rfl, hid.symm.trans he.requestId, hb⟩
      · exact Or.inl (.caller hx hb hid)
    · exact Or.inl (.request hr hid hk)
    · exact Or.inl (.entry hen hid hk)
  -- A new mention agrees with every old one.
  have hnew : ∀ j, w.Mentions c.request.requestId j → c'.stage.busy = true → j = k := by
    intro j hm hb
    rcases hbusy hb with hb | hnone
    · exact h.agreed _ j k hm (.caller hc hb rfl)
    · exact absurd hm (hnone j)
  refine { h with
    issued := fun j hj => ?_
    early := fun j x hx hearly => ?_
    agreed := fun requestId i j hi hj => ?_
    registered := fun j x hx hr => ?_
    waiters := fun p hp => ?_
    expected := fun r hr => ?_
    serves := ?_
    proper := fun j x hx => ?_
    stored := fun e hmem => ?_
    logged := fun x hx => hext.own (h.logged x hx) }
  · show j < (w.callers.set k c').length
    rw [List.length_set]
    exact h.issued j hj
  · rcases (callers_move hc).1 hx with ⟨rfl, rfl⟩ | ⟨-, hx⟩
    · exact h.early j c hc (he.early hearly)
    · exact h.early j x hx hearly
  · rcases hmen _ _ hi with hi' | ⟨rfl, rfl, hb⟩ <;> rcases hmen _ _ hj with hj' | ⟨rfl, hid, hb'⟩
    · exact h.agreed _ _ _ hi' hj'
    · subst hid
      exact hnew i hi' hb'
    · exact (hnew j hj' hb).symm
    · rfl
  · rcases (callers_move hc).1 hx with ⟨rfl, rfl⟩ | ⟨hne, hx⟩
    · rw [he.requestId]
      exact hreg hr
    · exact hkeep _ (h.registered j x hx hr) hne
  · rcases hws p hp with ⟨hmem, hne⟩ | ⟨rfl, hr⟩
    · obtain ⟨x, hx, hr, hid⟩ := h.waiters p hmem
      exact ⟨x, (callers_move hc).2 (Or.inr ⟨hne, hx⟩), hr, hid⟩
    · exact ⟨c', (callers_move hc).2 (Or.inl ⟨rfl, rfl⟩), hr, he.requestId⟩
  · obtain ⟨x, hx, hreq, hex⟩ := h.expected r hr
    rcases eq_or_ne (w.ticketOf r) k with hk | hne
    · rw [hk, hc, Option.some.injEq] at hx
      subst hx
      have hlate : c.stage.early = false := by
        by_contra hearly
        rw [Bool.not_eq_false] at hearly
        have hmem := List.mem_of_getElem? (World.ticketOf_eq (h.numbered r hr))
        rw [hk] at hmem
        exact h.early k c hc hearly hmem
      refine ⟨c', (callers_move hc).2 (Or.inl ⟨hk, rfl⟩), (he.request hlate).trans hreq, ?_⟩
      exact hexp ⟨r, hr, hk⟩ hex
    · exact ⟨x, (callers_move hc).2 (Or.inr ⟨hne, hx⟩), hreq, hex⟩
  · show w.dispatcher.Serves (w.move k c' ws)
    rcases hwatch with hidle | hwatch
    · rw [hidle]
      trivial
    · refine hext.serves h.serves h.hand_numbered fun j x hx hw => ?_
      rcases eq_or_ne j k with rfl | hne
      · rw [hc, Option.some.injEq] at hx
        subst hx
        exact ⟨c', (callers_move hc).2 (Or.inl ⟨rfl, rfl⟩), hwatch hw⟩
      · exact ⟨x, (callers_move hc).2 (Or.inr ⟨hne, hx⟩), hw⟩
  · rcases (callers_move hc).1 hx with ⟨rfl, rfl⟩ | ⟨-, hx⟩
    · exact hext.proper hp
    · exact hext.proper (h.proper j x hx)
  · obtain ⟨j, hj, hold⟩ := h.stored e hmem
    exact ⟨j, hj, hext.holds hold⟩

/-- A caller goes on and its waiter stays as it is. -/
theorem Sound.setCaller (h : Sound w) (hc : w.callers[k]? = some c) (he : Evolves c c')
    (hp : c'.Proper w k) (hbusy : c'.stage.busy = true → c.stage.busy = true)
    (hreg : c'.stage.registered = c.stage.registered)
    (hexp : (∃ r ∈ w.held, w.ticketOf r = k) → c.Expects → c'.Expects)
    (hwatch : w.dispatcher = .idle ∨ (c.Watches → c'.Watches)) : Sound (w.setCaller k c') := by
  show Sound (w.move k c' w.syncWaiters)
  refine h.move hc he hp (fun hb => Or.inl (hbusy hb)) (fun p hp => ?_)
    (fun p hp _ => hp) (fun hr => ?_) hexp hwatch
  · rcases eq_or_ne p.2 k with hk | hne
    · obtain ⟨x, hx, hr, hid⟩ := h.waiters p hp
      rw [hk, hc, Option.some.injEq] at hx
      subst hx
      exact Or.inr ⟨Prod.ext hid.symm hk, hreg.trans hr⟩
    · exact Or.inl ⟨hp, hne⟩
  · exact h.registered k c hc (hreg ▸ hr)

/-- What is in `sync_waiters_` under the id of a registered caller is its
waiter. -/
theorem Sound.waiter_eq (h : Sound w) (hc : w.callers[k]? = some c)
    (hr : c.stage.registered = true) {p : String × ℕ} (hp : p ∈ w.syncWaiters) :
    p.1 = c.request.requestId ↔ p.2 = k := by
  constructor
  · intro hid
    have hm : w.Mentions c.request.requestId p.2 := by
      rw [← hid]
      exact .waiter hp
    exact h.agreed _ _ _ hm (.caller hc (Stage.busy_of_registered hr) rfl)
  · intro hk
    obtain ⟨x, hx, -, hid⟩ := h.waiters p hp
    rw [hk, hc, Option.some.injEq] at hx
    rw [← hid, hx]

/-- **A caller goes and takes its waiter with it.** -/
theorem Sound.leave (h : Sound w) (hc : w.callers[k]? = some c) (hr : c.stage.registered = true)
    (he : Evolves c c') (hp : c'.Proper w k) (hr' : c'.stage.registered = false)
    (hexp : (∃ r ∈ w.held, w.ticketOf r = k) → c.Expects → c'.Expects)
    (hwatch : c.Watches → c'.Watches) :
    Sound ((w.eraseWaiter c.request.requestId).setCaller k c') := by
  refine h.move hc he hp (fun _ => Or.inl (Stage.busy_of_registered hr)) (fun p hp => ?_)
    (fun p hp hne => ?_) (fun hreg => ?_) hexp (Or.inr hwatch)
  · obtain ⟨hmem, hne⟩ := List.mem_filter.1 hp
    have hne' : p.1 ≠ c.request.requestId := of_decide_eq_true hne
    exact Or.inl ⟨hmem, fun hk => hne' ((h.waiter_eq hc hr hmem).2 hk)⟩
  · refine List.mem_filter.2 ⟨hp, decide_eq_true fun hid => hne ?_⟩
    exact (h.waiter_eq hc hr hp).1 hid
  · rw [hr'] at hreg
    cases hreg

/-! ## A request is handed to the scheduler -/

/-- **A caller hands its request to the scheduler**: nothing but its own
stands under the id, and what is queued is awaited. -/
theorem Sound.offer (h : Sound w) {s : FifoScheduler} (hc : w.callers[k]? = some c)
    (hk : k ∉ w.tickets) (hlate : c.stage.early = false)
    (hown : ∀ j, w.Mentions c.request.requestId j → j = k)
    (hq : s.queue = w.scheduler.queue ∨ c.Expects ∧ ∃ r : SchedulerRequest, r.request = c.request ∧
      r.number = w.scheduler.offered ∧ s.queue = w.scheduler.queue ++ [r])
    (ho : s.offered = w.scheduler.offered + 1) (hr : ∀ r, Runs w.scheduler r → Runs s r) :
    Sound { w with scheduler := s, tickets := w.tickets ++ [k] } := by
  have hext : Extends w { w with scheduler := s, tickets := w.tickets ++ [k] } :=
    Extends.same_callers (List.prefix_append _ _) (List.prefix_refl _) (fun _ => id) rfl
  -- What is held is what was, and the new request under the new ticket.
  have hheld : ∀ r ∈ World.held { w with scheduler := s, tickets := w.tickets ++ [k] },
      r ∈ w.held ∨ c.Expects ∧ r.request = c.request ∧ r.number = w.tickets.length := by
    intro r hmem
    rcases List.mem_append.1 hmem with hmem | hmem
    · rcases hq with hq | ⟨hex, x, hx, hn, hq⟩
      · exact Or.inl (List.mem_append_left _ (hq ▸ hmem))
      · change r ∈ s.queue at hmem
        rw [hq] at hmem
        rcases List.mem_append.1 hmem with hmem | hmem
        · exact Or.inl (List.mem_append_left _ hmem)
        · rw [List.mem_singleton] at hmem
          subst hmem
          exact Or.inr ⟨hex, hx, hn.trans h.offered.symm⟩
    · exact Or.inl (List.mem_append_right _ hmem)
  have hnew : ∀ r : SchedulerRequest, r.number = w.tickets.length →
      World.ticketOf { w with scheduler := s, tickets := w.tickets ++ [k] } r = k := by
    intro r hn
    show (w.tickets ++ [k]).getD r.number 0 = k
    rw [hn]
    simp
  have hmen : ∀ requestId j, World.Mentions { w with
      scheduler := s, tickets := w.tickets ++ [k] } requestId j →
      w.Mentions requestId j ∨ j = k ∧ requestId = c.request.requestId := by
    intro requestId j hm
    rcases hm with hw | ⟨hx, hb, hid⟩ | @⟨r, hmem, hid, hj⟩ | ⟨hen, hid, hj⟩
    · exact Or.inl (.waiter hw)
    · exact Or.inl (.caller hx hb hid)
    · rcases hheld r hmem with hold | ⟨-, hreq, hn⟩
      · rw [hext.ticketOf (h.numbered r hold)] at hj
        exact Or.inl (.request hold hid hj)
      · rw [hnew r hn] at hj
        refine Or.inr ⟨hj.symm, hid.symm.trans ?_⟩
        unfold SchedulerRequest.requestId
        rw [hreq]
    · exact Or.inl (.entry hen hid hj)
  refine { h with
    offered := ?_
    issued := fun j hj => ?_
    numbered := fun r hmem => ?_
    apart := ?_
    early := fun j x hx hearly hj => ?_
    agreed := fun requestId i j hi hj => ?_
    expected := fun r hmem => ?_
    serves := hext.serves h.serves h.hand_numbered fun j x hx hw => ⟨x, hx, hw⟩
    proper := fun j x hx => hext.proper (h.proper j x hx)
    stored := fun e hmem => ?_
    logged := fun x hx => hext.own (h.logged x hx)
    running := hr _ h.running }
  · show (w.tickets ++ [k]).length = s.offered
    rw [List.length_append, ho, h.offered]
    rfl
  · rcases List.mem_append.1 hj with hj | hj
    · exact h.issued j hj
    · rw [List.mem_singleton.1 hj]
      exact (List.getElem?_eq_some_iff.1 hc).1
  · show r.number < (w.tickets ++ [k]).length
    rw [List.length_append, List.length_singleton]
    rcases hheld r hmem with hold | ⟨-, -, hn⟩
    · have := h.numbered r hold
      omega
    · omega
  · have hsame : w.held.map (World.ticketOf { w with scheduler := s, tickets := w.tickets ++ [k] }) =
        w.held.map w.ticketOf :=
      List.map_congr_left fun r hmem => hext.ticketOf (h.numbered r hmem)
    have hnotin : k ∉ w.held.map w.ticketOf := by
      intro hmem
      obtain ⟨r, hmem, hrk⟩ := List.mem_map.1 hmem
      have hin := List.mem_of_getElem? (World.ticketOf_eq (h.numbered r hmem))
      rw [hrk] at hin
      exact hk hin
    rcases hq with hq | ⟨-, r, -, hn, hq⟩
    · show ((s.queue ++ w.dispatcher.hand.toList).map _).Nodup
      rw [hq]
      change (w.held.map _).Nodup
      rw [hsame]
      exact h.apart
    · have hperm : (World.held { w with scheduler := s, tickets := w.tickets ++ [k] }).Perm
          (r :: w.held) := by
        show (s.queue ++ w.dispatcher.hand.toList).Perm _
        rw [hq, List.append_assoc, List.singleton_append]
        exact List.perm_middle
      refine (hperm.map _).nodup_iff.2 ?_
      rw [List.map_cons, List.nodup_cons, hsame, hnew r (hn.trans h.offered.symm)]
      exact ⟨hnotin, h.apart⟩
  · rcases List.mem_append.1 hj with hj | hj
    · exact h.early j x hx hearly hj
    · rw [List.mem_singleton] at hj
      subst hj
      rw [hc, Option.some.injEq] at hx
      subst hx
      rw [hlate] at hearly
      cases hearly
  · rcases hmen _ _ hi with hi' | ⟨rfl, rfl⟩ <;> rcases hmen _ _ hj with hj' | ⟨rfl, hid⟩
    · exact h.agreed _ _ _ hi' hj'
    · subst hid
      exact hown i hi'
    · exact (hown j hj').symm
    · rfl
  · rcases hheld r hmem with hold | ⟨hex, hreq, hn⟩
    · rw [hext.ticketOf (h.numbered r hold)]
      exact h.expected r hold
    · rw [hnew r hn]
      exact ⟨c, hc, hreq.symm, hex⟩
  · obtain ⟨j, hj, hold⟩ := h.stored e hmem
    exact ⟨j, hj, hext.holds hold⟩

/-! ## An entry is added -/

/-- **An entry is added for a caller under whose id nothing else stands.** -/
theorem Sound.addEntry (h : Sound w) {t : AsyncPolicyStore} {e : Entry}
    (hc : w.callers[k]? = some c) (hsync : c.sync = false)
    (hown : ∀ j, w.Mentions c.request.requestId j → j = k) (hkeyed : Keyed t)
    (hentries : t.entries = w.store.entries ++ [e]) (hadded : t.added = w.store.added + 1)
    (hkey : e.key = (c.request.requestId, w.store.added)) (hresult : e.result = none)
    (herror : e.error = none) :
    Sound { w with store := t, owners := w.owners ++ [k] } := by
  have hext : Extends w { w with store := t, owners := w.owners ++ [k] } :=
    Extends.same_callers (List.prefix_refl _) (List.prefix_append _ _) (fun _ => id) rfl
  obtain ⟨hid, haddr⟩ := Prod.mk.inj hkey
  have howner : (w.owners ++ [k])[e.address]? = some k := by
    rw [haddr, ← h.added]
    simp
  have hmen : ∀ requestId j, World.Mentions { w with store := t, owners := w.owners ++ [k] }
      requestId j → w.Mentions requestId j ∨ j = k ∧ requestId = c.request.requestId := by
    intro requestId j hm
    rcases hm with hw | ⟨hx, hb, hi⟩ | ⟨hmem, hi, hj⟩ | @⟨x, hmem, hi, hj⟩
    · exact Or.inl (.waiter hw)
    · exact Or.inl (.caller hx hb hi)
    · exact Or.inl (.request hmem hi hj)
    · change x ∈ t.entries at hmem
      rw [hentries] at hmem
      rcases List.mem_append.1 hmem with hmem | hmem
      · obtain ⟨i, hi', -⟩ := h.stored x hmem
        have hsame := getElem?_of_extends hext.owners hi'
        rw [hj, Option.some.injEq] at hsame
        exact Or.inl (.entry hmem hi (by rw [hsame]; exact hi'))
      · rw [List.mem_singleton] at hmem
        subst hmem
        change (w.owners ++ [k])[x.address]? = some j at hj
        rw [howner, Option.some.injEq] at hj
        exact Or.inr ⟨hj.symm, hi.symm.trans hid⟩
  refine { h with
    added := ?_
    agreed := fun requestId i j hi hj => ?_
    serves := hext.serves h.serves h.hand_numbered fun j x hx hw => ⟨x, hx, hw⟩
    proper := fun j x hx => hext.proper (h.proper j x hx)
    keyed := hkeyed
    stored := fun x hmem => ?_
    logged := fun x hx => hext.own (h.logged x hx) }
  · show (w.owners ++ [k]).length = t.added
    rw [List.length_append, hadded, h.added]
    rfl
  · rcases hmen _ _ hi with hi' | ⟨rfl, rfl⟩ <;> rcases hmen _ _ hj with hj' | ⟨rfl, hid'⟩
    · exact h.agreed _ _ _ hi' hj'
    · subst hid'
      exact hown i hi'
    · exact (hown j hj').symm
    · rfl
  · change x ∈ t.entries at hmem
    rw [hentries] at hmem
    rcases List.mem_append.1 hmem with hmem | hmem
    · obtain ⟨j, hj, hold⟩ := h.stored x hmem
      exact ⟨j, getElem?_of_extends hext.owners hj, hext.holds hold⟩
    · rw [List.mem_singleton] at hmem
      subst hmem
      refine ⟨k, howner, ⟨c, hc, hsync, hid.symm⟩, fun result hr => ?_, fun error hr => ?_⟩
      · rw [hresult] at hr
        cases hr
      · rw [herror] at hr
        cases hr

/-! ## The dispatcher goes on -/

/-- **The dispatcher goes on with its request or lets it go.** -/
theorem Sound.handle (h : Sound w) {s : FifoScheduler} {d : Dispatcher}
    (hhand : d.hand = w.dispatcher.hand ∨ d.hand = none) (hq : s.queue = w.scheduler.queue)
    (ho : s.offered = w.scheduler.offered) (hruns : Runs s d.running) (hd : d.Serves w) :
    Sound { w with dispatcher := d, scheduler := s } := by
  have hheld : (World.held { w with dispatcher := d, scheduler := s }).Sublist w.held := by
    show (s.queue ++ d.hand.toList).Sublist (w.scheduler.queue ++ w.dispatcher.hand.toList)
    rw [hq]
    refine (List.Sublist.refl _).append ?_
    rcases hhand with hhand | hhand
    · rw [hhand]
    · rw [hhand]
      exact List.nil_sublist _
  have hext : Extends w { w with dispatcher := d, scheduler := s } :=
    Extends.same_callers (List.prefix_refl _) (List.prefix_refl _) (fun _ => id) rfl
  have hmen : ∀ requestId j, World.Mentions { w with dispatcher := d, scheduler := s }
      requestId j → w.Mentions requestId j := by
    intro requestId j hm
    rcases hm with hw | ⟨hx, hb, hi⟩ | ⟨hmem, hi, hj⟩ | ⟨hmem, hi, hj⟩
    · exact .waiter hw
    · exact .caller hx hb hi
    · exact .request (hheld.subset hmem) hi hj
    · exact .entry hmem hi hj
  have hn : ∀ r, d.hand = some r → r.number < w.tickets.length := by
    intro r hr
    rcases hhand with hhand | hhand
    · exact h.hand_numbered r (hhand ▸ hr)
    · rw [hhand] at hr
      cases hr
  refine { h with
    offered := h.offered.trans ho.symm
    numbered := fun r hr => h.numbered r (hheld.subset hr)
    apart := (hheld.map _).nodup h.apart
    agreed := fun requestId i j hi hj => h.agreed requestId i j (hmen _ _ hi) (hmen _ _ hj)
    expected := fun r hr => h.expected r (hheld.subset hr)
    serves := hext.serves hd hn fun j x hx hw => ⟨x, hx, hw⟩
    proper := fun k c hc => hext.proper (h.proper k c hc)
    stored := fun e hmem => ?_
    logged := fun x hx => hext.own (h.logged x hx)
    running := hruns }
  obtain ⟨j, hj, hold⟩ := h.stored e hmem
  exact ⟨j, hj, hext.holds hold⟩

/-- **The idle dispatcher takes the first request a sweep left.** -/
theorem Sound.take (h : Sound w) {s : FifoScheduler} {r : SchedulerRequest}
    (hidle : w.dispatcher = .idle) (hq : (r :: s.queue).Sublist w.scheduler.queue)
    (ho : s.offered = w.scheduler.offered) (hruns : Runs s (some r)) :
    Sound { w with scheduler := s, dispatcher := .taken r } := by
  have hperm : (World.held { w with scheduler := s, dispatcher := .taken r }).Perm
      (r :: s.queue) := List.perm_append_singleton r s.queue
  have hold : w.held = w.scheduler.queue := by
    unfold World.held
    rw [hidle]
    exact List.append_nil _
  have hheld : ∀ x ∈ World.held { w with scheduler := s, dispatcher := .taken r },
      x ∈ w.held := by
    intro x hx
    rw [hold]
    exact hq.subset (hperm.subset hx)
  have hext : Extends w { w with scheduler := s, dispatcher := .taken r } :=
    Extends.same_callers (List.prefix_refl _) (List.prefix_refl _) (fun _ => id) rfl
  have hmen : ∀ requestId j, World.Mentions { w with scheduler := s, dispatcher := .taken r }
      requestId j → w.Mentions requestId j := by
    intro requestId j hm
    rcases hm with hw | ⟨hx, hb, hi⟩ | ⟨hmem, hi, hj⟩ | ⟨hmem, hi, hj⟩
    · exact .waiter hw
    · exact .caller hx hb hi
    · exact .request (hheld _ hmem) hi hj
    · exact .entry hmem hi hj
  refine { h with
    offered := h.offered.trans ho.symm
    numbered := fun x hx => h.numbered x (hheld x hx)
    apart := ?_
    agreed := fun requestId i j hi hj => h.agreed requestId i j (hmen _ _ hi) (hmen _ _ hj)
    expected := fun x hx => h.expected x (hheld x hx)
    serves := trivial
    proper := fun k c hc => hext.proper (h.proper k c hc)
    stored := fun e hmem => ?_
    logged := fun x hx => hext.own (h.logged x hx)
    running := hruns }
  · refine (hperm.map _).nodup_iff.2 ((hq.map _).nodup ?_)
    have hap := h.apart
    rw [hold] at hap
    exact hap
  · obtain ⟨j, hj, hold⟩ := h.stored e hmem
    exact ⟨j, hj, hext.holds hold⟩

end Pipeline

end Tensorplate
