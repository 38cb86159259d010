import Tensorplate.Lib.History
import Tensorplate.Session.OutputLine

/-!
# What the output queue hands out

The queue follows its line over every sequence of calls: what is unsent
waits in the line, and what `take` handed out was served there. Beside
the items stand the two gates, which suppression and the terminal outcome
shut, and the stall clock, which only a delivery or the end of an idle
time moves.
-/

namespace Tensorplate

namespace Serving

open Lib

namespace BoundedOutputQueue

variable {β : Type} {line : List (Place β)} {item : OutputItem β} {number : ℕ}

/-! ## The queue follows the line -/

variable {q : BoundedOutputQueue β} {now : TimePoint}

theorem event_offer_of_refuses (h : refuses (q.offer item now).2) :
    q.event (.offer item now) = .refused item (q.offer item now).2 := by
  simp only [event]
  generalize (q.offer item now).2 = answer at h ⊢
  rcases answer with error | outcome
  · rfl
  · cases outcome <;> simp_all [refuses]

theorem event_offer_of_accepts (h : ¬ refuses (q.offer item now).2) :
    q.event (.offer item now) = .accepted item now (!q.pendingLocked) := by
  simp only [event]
  generalize (q.offer item now).2 = answer at h ⊢
  rcases answer with error | outcome
  · simp [refuses] at h
  · cases outcome <;> simp_all [refuses]

@[simp] theorem setUsed_closed (kind : OutputKind) (value : ℕ) :
    (q.setUsed kind value).closed = q.closed := by
  unfold setUsed
  split <;> rfl

/-- **What an accepted offer found and left**, beside the items: an open
queue that takes its kind, closed now by the terminal outcome alone, and
the stall clock as it was unless nothing awaited delivery. -/
theorem offer_of_accepts (h : ¬ refuses (q.offer item now).2) :
    q.closed = false ∧ (q.suppressed && item.kind.taskOutput) = false ∧
      (q.offer item now).1.closed = decide (item.kind = .terminal) ∧
      (q.offer item now).1.stalledSince =
        if q.pendingLocked then q.stalledSince else some now := by
  by_cases hv : item.valid = true
  swap
  · simp [offer, hv, refuses] at h
  by_cases hlarge : item.bytes > q.limitFor item.kind
  · simp [offer, hv, hlarge, refuses] at h
  have hoffer : q.offer item now = ((q.queueLocked item now).1, .ok (q.queueLocked item now).2) := by
    simp [offer, hv, hlarge]
  rw [hoffer] at h ⊢
  by_cases hclosed : q.closed = true
  · simp [queueLocked, hclosed, refuses] at h
  by_cases hsupp : (q.suppressed && item.kind.taskOutput) = true
  · simp only [Bool.and_eq_true] at hsupp
    simp [queueLocked, hclosed, hsupp, refuses] at h
  simp only [Bool.not_eq_true] at hclosed hsupp
  refine ⟨hclosed, hsupp, ?_⟩
  unfold queueLocked at h ⊢
  simp only [hclosed, hsupp, Bool.false_eq_true, if_false] at h ⊢
  by_cases hterm : item.kind = .terminal
  · simp [hterm, push]
  simp only [ne_eq, hterm, not_false_eq_true, if_true] at h ⊢
  cases hfind : q.findUnsentLocked (if item.kind = .result then .partialText else item.kind)
      item.replaceKey with
  | none =>
    simp only [hfind] at h ⊢
    split at h
    · simp [refuses] at h
    · next hfits =>
      rw [if_neg hfits]
      simp [push, hclosed]
  | some found =>
    obtain ⟨front, old, back⟩ := found
    obtain ⟨-, hsplit, -⟩ := findUnsentLocked_eq_some hfind
    have hpending : q.pendingLocked = true := by simp [pendingLocked, hsplit]
    simp only [hfind] at h ⊢
    split at h
    · simp [refuses] at h
    · next hfits =>
      rw [if_neg hfits]
      by_cases hk : item.kind = .result
      · simp [hk, push, hclosed, hpending]
      · simp [hk, hclosed, hpending]

/-- Returning a charge changes a counter at most. -/
theorem discharge_eq (q : BoundedOutputQueue β) (kind : OutputKind) (bytes : ℕ) :
    ∃ pcm metadata, q.discharge kind bytes = { q with pcmUsed := pcm, metadataUsed := metadata } := by
  unfold discharge
  split
  · exact ⟨_, _, rfl⟩
  · split
    · exact ⟨_, _, rfl⟩
    · exact ⟨_, _, rfl⟩

/-- **One delivery**: refused without a change, or the oldest item leaves
flight and the stall clock restarts or stops. -/
theorem delivered_cases (q : BoundedOutputQueue β) (sequence : ℕ) (now : TimePoint) :
    (q.event (.delivered sequence now) = .outOfOrder ∧ (q.delivered sequence now).1 = q) ∨
      (q.event (.delivered sequence now) = .delivered now ∧
        ∃ done rest pcm metadata, q.inFlight = done :: rest ∧
          (q.delivered sequence now).1 =
            { q with
              inFlight := rest, pcmUsed := pcm, metadataUsed := metadata
              stalledSince := if !q.unsent.isEmpty || !rest.isEmpty then some now else none }) := by
  cases hflight : q.inFlight with
  | nil => exact .inl (by simp [event, BoundedOutputQueue.delivered, hflight])
  | cons done rest =>
    by_cases hs : done.sequence = sequence
    · obtain ⟨pcm, metadata, hq⟩ :=
        discharge_eq { q with inFlight := rest } done.kind done.bytes
      refine .inr ⟨by simp [event, BoundedOutputQueue.delivered, hflight, hs], done, rest, pcm,
        metadata, rfl, ?_⟩
      simp [BoundedOutputQueue.delivered, hflight, hs, hq, pendingLocked]
    · exact .inl (by simp [event, BoundedOutputQueue.delivered, hflight, hs])

/-- What suppression discards of a queue, whatever it is charged. -/
theorem discardTaskOutput_items (q : BoundedOutputQueue β) (items : List (OutputItem β)) :
    ∃ pcm metadata, q.discardTaskOutput items =
      ({ q with pcmUsed := pcm, metadataUsed := metadata },
        items.filter fun item => !item.kind.taskOutput) := by
  induction items generalizing q with
  | nil => exact ⟨_, _, rfl⟩
  | cons item rest ih =>
    rw [discardTaskOutput]
    by_cases ht : item.kind.taskOutput = true
    · obtain ⟨pcm, metadata, hq⟩ := discharge_eq q item.kind item.bytes
      obtain ⟨pcm', metadata', hrest⟩ := ih { q with pcmUsed := pcm, metadataUsed := metadata }
      refine ⟨pcm', metadata', ?_⟩
      rw [hq, hrest]
      simp [ht]
    · obtain ⟨pcm, metadata, hrest⟩ := ih q
      refine ⟨pcm, metadata, ?_⟩
      rw [hrest]
      simp [ht]

/-- **Suppression** keeps the unsent items that are no task output. -/
theorem suppress_eq (q : BoundedOutputQueue β) :
    ∃ pcm metadata, q.suppress = { q with
      suppressed := true, pcmUsed := pcm, metadataUsed := metadata
      unsent := q.unsent.filter fun item => !item.kind.taskOutput
      stalledSince :=
        if !(q.unsent.filter fun item => !item.kind.taskOutput).isEmpty || !q.inFlight.isEmpty
        then q.stalledSince else none } := by
  obtain ⟨pcm, metadata, hq⟩ := discardTaskOutput_items { q with suppressed := true } q.unsent
  refine ⟨pcm, metadata, ?_⟩
  unfold suppress
  rw [hq]
  rfl

theorem bookOf_append (es : List (Event β)) (e : Event β) :
    bookOf (es ++ [e]) = (bookOf es).enter e := by
  simp [bookOf]

theorem kept_bookOf (es : List (Event β)) : (bookOf es).Kept := by
  induction es using List.reverseRecOn with
  | nil => exact kept_nil
  | append_singleton es e ih =>
    rw [bookOf_append]
    exact ih.enter e

/-- The book's accepted items are those of the events. -/
theorem accepted_bookOf (es : List (Event β)) :
    (bookOf es).accepted = es.filterMap Event.item? := by
  induction es using List.reverseRecOn with
  | nil => rfl
  | append_singleton es e ih =>
    rw [bookOf_append, List.filterMap_append, ← ih]
    cases e <;> simp [Book.enter, Event.item?, List.filterMap_cons]

/-- A place is discarded by a suppression only. -/
theorem suppressed_of_discarded (es : List (Event β)) {p : Place β} (hp : p ∈ (bookOf es).line)
    (hfate : p.fate = .discarded) : .suppressed ∈ es := by
  induction es using List.reverseRecOn generalizing p with
  | nil => simp [bookOf] at hp
  | append_singleton es e ih =>
    rw [List.mem_append]
    rw [bookOf_append] at hp
    cases e with
    | suppressed => exact .inr (by simp)
    | accepted item now idle =>
      refine .inl ?_
      simp only [Book.enter, placeItem] at hp
      split at hp
      · obtain ⟨p, hmem, rfl⟩ := List.mem_map.1 hp
        rw [Place.fate_takeOver] at hfate
        exact ih hmem hfate
      · rcases List.mem_append.1 hp with h | h
        · obtain ⟨p, hmem, rfl⟩ := List.mem_map.1 h
          rw [Place.fate_supersede] at hfate
          split at hfate
          · simp at hfate
          · exact ih hmem hfate
        · rw [List.mem_singleton.1 h] at hfate
          simp at hfate
    | taken output =>
      refine .inl ?_
      rcases serve_cases (bookOf es).line with ⟨hs, -⟩ | ⟨front, p', back, hline, -, -, hs⟩
      · rw [Book.enter, hs] at hp
        exact ih hp hfate
      · simp only [Book.enter, hs, List.mem_append, List.mem_cons] at hp
        rcases hp with h | rfl | h
        · exact ih (by simp [hline, h]) hfate
        · simp at hfate
        · exact ih (by simp [hline, h]) hfate
    | refused item answer => exact .inl (ih hp hfate)
    | nothingToTake => exact .inl (ih hp hfate)
    | delivered now => exact .inl (ih hp hfate)
    | outOfOrder => exact .inl (ih hp hfate)

/-- **The queue and the line agree**: what is unsent waits, and what was
handed out was served. -/
structure Follows (w : Watched β) : Prop where
  accounted : Accounted w.queue
  unsent : w.queue.unsent = holding .waiting (bookOf w.events).line
  taken : w.events.filterMap Event.output? = sequenced (holding .taken (bookOf w.events).line)
  sequence : w.queue.lastSequence = (w.events.filterMap Event.output?).length

/-- The one unsent item of a kind and key. -/
theorem not_keyed_of_split {kind : OutputKind} {key : ℕ} {front back : List (OutputItem β)}
    {old : OutputItem β} (hsplit : q.unsent = front ++ old :: back) (hold : keyed kind key old = true)
    (hone : q.unsent.countP (keyed kind key) ≤ 1) :
    (∀ x ∈ front, keyed kind key x = false) ∧ ∀ x ∈ back, keyed kind key x = false := by
  rw [hsplit, List.countP_append, List.countP_cons, if_pos hold] at hone
  have hf : front.countP (keyed kind key) = 0 := by omega
  have hb : back.countP (keyed kind key) = 0 := by omega
  rw [List.countP_eq_zero] at hf hb
  exact ⟨fun x hx => by simpa using hf x hx, fun x hx => by simpa using hb x hx⟩

/-- Admitting an item to the line does to the waiting items what the
queue does to the unsent ones. -/
theorem Accepts.holding_admit {old : Option (OutputItem β)} {unsent : List (OutputItem β)}
    (h : Accepts q item old unsent) (hv : item.valid = true)
    (hone : ∀ kind key, replaceable kind → key ≠ 0 → q.unsent.countP (keyed kind key) ≤ 1)
    (hline : q.unsent = holding .waiting line) :
    unsent = holding .waiting (placeItem item number line) := by
  unfold placeItem
  rw [any_waitsFor, ← hline]
  cases h with
  | appended hnone =>
    have hwait : ¬ (item.kind ≠ .result ∧ item.replaceKey ≠ 0 ∧
        q.unsent.any (keyed item.kind item.replaceKey) = true) := by
      rintro ⟨hk, hkey, hany⟩
      obtain ⟨x, hx, hkeyed⟩ := List.any_eq_true.1 hany
      have hterm : item.kind ≠ .terminal := by
        intro ht
        unfold OutputItem.valid at hv
        split at hv <;> simp_all
      have := hnone hterm hkey x hx
      rw [if_neg hk] at this
      simp [this] at hkeyed
    rw [if_neg hwait, holding_append, holding_waiting_supersede, ← hline]
    have hall : ∀ x ∈ q.unsent, (!(item.kind == .result && item.replaceKey != 0 &&
        keyed .partialText item.replaceKey x)) = true := by
      intro x hx
      by_cases hk : item.kind = .result
      · by_cases hkey : item.replaceKey = 0
        · simp [hkey]
        · have := hnone (by simp [hk]) hkey x hx
          rw [if_pos hk] at this
          simp [this]
      · simp [hk]
    rw [List.filter_eq_self.2 hall]
    simp [holding, Place.holder, Place.occupants]
  | @replaced front back old hr hkey hsplit hold =>
    have hk : item.kind ≠ .result := by rcases hr with h | h <;> simp [h]
    have hwait : item.kind ≠ .result ∧ item.replaceKey ≠ 0 ∧
        q.unsent.any (keyed item.kind item.replaceKey) = true := by
      refine ⟨hk, hkey, List.any_eq_true.2 ⟨old, by simp [hsplit], hold⟩⟩
    rw [if_pos hwait, holding_takeOver, if_pos rfl, ← hline, hsplit]
    obtain ⟨hfront, hback⟩ := not_keyed_of_split hsplit hold (hone _ _ hr hkey)
    rw [List.map_append, List.map_cons, if_pos hold]
    congr 1
    · exact (List.map_id' front).symm.trans (List.map_congr_left fun x hx => by simp [hfront x hx])
    · congr 1
      exact (List.map_id' back).symm.trans (List.map_congr_left fun x hx => by simp [hback x hx])
  | @superseded front back old hk hkey hsplit hold =>
    have hwait : ¬ (item.kind ≠ .result ∧ item.replaceKey ≠ 0 ∧
        q.unsent.any (keyed item.kind item.replaceKey) = true) := fun h => h.1 hk
    rw [if_neg hwait, holding_append, holding_waiting_supersede, ← hline, hsplit]
    obtain ⟨hfront, hback⟩ := not_keyed_of_split hsplit hold (hone _ _ (.inl rfl) hkey)
    have hf : front.filter (fun x => !(item.kind == .result && item.replaceKey != 0 &&
        keyed .partialText item.replaceKey x)) = front :=
      List.filter_eq_self.2 fun x hx => by simp [hfront x hx]
    have hb : back.filter (fun x => !(item.kind == .result && item.replaceKey != 0 &&
        keyed .partialText item.replaceKey x)) = back :=
      List.filter_eq_self.2 fun x hx => by simp [hback x hx]
    rw [List.filter_append, List.filter_cons_of_neg (by simp [hk, hkey, hold]), hf, hb]
    simp [holding, Place.holder, Place.occupants]

theorem holding_taken_placeItem : holding .taken (placeItem item number line) = holding .taken line := by
  unfold placeItem
  split
  · rw [holding_takeOver, if_neg (by simp)]
  · rw [holding_append, holding_taken_supersede]
    simp [holding]

theorem sequenced_append (items : List (OutputItem β)) (x : OutputItem β) :
    sequenced (items ++ [x]) = sequenced items ++ [⟨items.length + 1, x⟩] := by
  simp [sequenced, List.zipIdx_append, Nat.add_comm]

@[simp] theorem length_sequenced (items : List (OutputItem β)) :
    (sequenced items).length = items.length := by
  simp [sequenced]

theorem follows_start (budgets : SessionBudgets) : Follows (⟨ofBudgets budgets, []⟩ : Watched β) :=
  ⟨accounted_ofBudgets budgets, rfl, rfl, rfl⟩

theorem outputs_append {es : List (Event β)} {e : Event β} (h : e.output? = none) :
    (es ++ [e]).filterMap Event.output? = es.filterMap Event.output? := by
  rw [List.filterMap_append, List.filterMap_cons_none h, List.filterMap_nil, List.append_nil]

/-- An event that hands out nothing and leaves both lists as they were. -/
theorem Follows.quiet {w : Watched β} (hw : Follows w) {q' : BoundedOutputQueue β} {e : Event β}
    (hacc : Accounted q') (hunsent : q'.unsent = w.queue.unsent)
    (hseq : q'.lastSequence = w.queue.lastSequence)
    (hbook : (bookOf w.events).enter e = bookOf w.events) (hout : e.output? = none) :
    Follows ⟨q', w.events ++ [e]⟩ := by
  refine ⟨hacc, ?_, ?_, ?_⟩ <;> dsimp only
  · rw [bookOf_append, hbook, hunsent]
    exact hw.unsent
  · rw [bookOf_append, hbook, outputs_append hout]
    exact hw.taken
  · rw [outputs_append hout, hseq]
    exact hw.sequence

/-- **One call**, seen from the queue and from the line. -/
theorem Follows.call {w : Watched β} (hw : Follows w) (c : Call β) : Follows (w.call c) := by
  have hacc' : Accounted (w.queue.call c) := hw.accounted.call c
  unfold Watched.call
  cases c with
  | offer item now =>
    rcases offer_cases w.queue item now with ⟨hsame, hno⟩ | ⟨hv, hyes, old, ho⟩
    · rw [event_offer_of_refuses hno]
      refine hw.quiet hacc' ?_ ?_ rfl rfl
      · exact congrArg BoundedOutputQueue.unsent hsame
      · exact congrArg BoundedOutputQueue.lastSequence hsame
    · rw [event_offer_of_accepts hyes]
      refine ⟨hacc', ?_, ?_, ?_⟩ <;> dsimp only
      · rw [bookOf_append]
        exact ho.items.holding_admit hv hw.accounted.unique hw.unsent
      · rw [bookOf_append, outputs_append rfl, Book.enter, holding_taken_placeItem]
        exact hw.taken
      · rw [outputs_append rfl]
        exact ho.sequence.trans hw.sequence
  | take =>
    cases hq : w.queue.unsent with
    | nil =>
      have htake : w.queue.take = (w.queue, none) := by simp [BoundedOutputQueue.take, hq]
      have hevent : w.queue.event .take = .nothingToTake := by simp [event, htake]
      rw [hevent]
      refine hw.quiet hacc' ?_ ?_ rfl rfl
      · exact congrArg (fun r => r.1.unsent) htake
      · exact congrArg (fun r => r.1.lastSequence) htake
    | cons item rest =>
      have hwait : holding .waiting (bookOf w.events).line = item :: rest := by
        rw [← hw.unsent, hq]
      have hevent : w.queue.event .take = .taken ⟨w.queue.lastSequence + 1, item⟩ := by
        simp [event, BoundedOutputQueue.take, hq]
      have hnext : (w.queue.call .take).unsent = rest ∧
          (w.queue.call .take).lastSequence = w.queue.lastSequence + 1 := by
        simp [BoundedOutputQueue.call, BoundedOutputQueue.take, hq]
      have houts : (w.events ++ [Event.taken ⟨w.queue.lastSequence + 1, item⟩]).filterMap
          Event.output? = w.events.filterMap Event.output? ++
            [⟨w.queue.lastSequence + 1, item⟩] := by
        rw [List.filterMap_append]
        rfl
      rw [hevent]
      refine ⟨hacc', ?_, ?_, ?_⟩ <;> dsimp only
      · rw [bookOf_append, Book.enter, holding_waiting_serve, hwait, hnext.1, List.tail_cons]
      · rw [bookOf_append, Book.enter, holding_taken_serve (kept_bookOf w.events).served hwait,
          sequenced_append, houts, hw.sequence, hw.taken, length_sequenced]
      · rw [houts, hnext.2, hw.sequence, List.length_append, List.length_singleton]
  | delivered sequence now =>
    rcases delivered_cases w.queue sequence now with ⟨hev, hsame⟩ | ⟨hev, _, _, _, _, -, hq⟩
    · rw [hev]
      refine hw.quiet hacc' ?_ ?_ rfl rfl
      · exact congrArg BoundedOutputQueue.unsent hsame
      · exact congrArg BoundedOutputQueue.lastSequence hsame
    · rw [hev]
      refine hw.quiet hacc' ?_ ?_ rfl rfl
      · rw [BoundedOutputQueue.call, hq]
      · rw [BoundedOutputQueue.call, hq]
  | suppress =>
    obtain ⟨pcm, metadata, hq⟩ := suppress_eq w.queue
    refine ⟨hacc', ?_, ?_, ?_⟩ <;> dsimp only [event]
    · rw [bookOf_append, Book.enter, holding_waiting_discard, ← hw.unsent]
      exact congrArg BoundedOutputQueue.unsent hq
    · rw [bookOf_append, Book.enter, holding_taken_discard, outputs_append rfl]
      exact hw.taken
    · rw [outputs_append rfl]
      exact (congrArg BoundedOutputQueue.lastSequence hq).trans hw.sequence

/-! ## What is accepted, and what is taken last -/

/-- What an event asks of those before it: nothing is accepted behind the
terminal outcome, no task output after a suppression, and nothing is
taken behind the terminal outcome. -/
def Event.follows (past : List (Event β)) : Event β → Prop
  | .accepted item _ _ => (∀ x ∈ past.filterMap Event.item?, x.kind ≠ .terminal) ∧
      (.suppressed ∈ past → item.kind.taskOutput = false)
  | .taken _ => ∀ o ∈ past.filterMap Event.output?, o.item.kind ≠ .terminal
  | _ => True

/-- **The two gates of the queue** and the events they were shut by. -/
structure Gated (w : Watched β) : Prop where
  suppressed : w.queue.suppressed = true ↔ .suppressed ∈ w.events
  closed : w.queue.closed = false → ∀ x ∈ w.events.filterMap Event.item?, x.kind ≠ .terminal
  unsent : w.queue.closed = false → ∀ x ∈ w.queue.unsent, x.kind ≠ .terminal
  last : w.queue.unsent.Pairwise fun x _ => x.kind ≠ .terminal
  ended : (∃ o ∈ w.events.filterMap Event.output?, o.item.kind = .terminal) →
    w.queue.unsent = [] ∧ w.queue.closed = true
  lawful : Lawful Event.follows w.events

theorem gated_start (budgets : SessionBudgets) :
    Gated (⟨ofBudgets budgets, []⟩ : Watched β) := by
  constructor <;> simp [ofBudgets, lawful_nil]

/-- An accepted item that is not the terminal outcome leaves none among
the unsent; the terminal outcome stands last. -/
theorem Accepts.last {old : Option (OutputItem β)} {unsent : List (OutputItem β)}
    (h : Accepts q item old unsent) (hq : ∀ x ∈ q.unsent, x.kind ≠ .terminal) :
    unsent.Pairwise fun x _ => x.kind ≠ .terminal := by
  have hof : item.kind ≠ .terminal → unsent.Pairwise fun x _ => x.kind ≠ .terminal := by
    intro hterm
    refine List.Pairwise.imp_of_mem (fun {x _} hx _ _ => ?_)
      (List.pairwise_of_forall fun _ _ => trivial)
    rcases h.mem hx with h | rfl
    · exact hq x h
    · exact hterm
  cases h with
  | appended hnone =>
    refine List.pairwise_append.2 ⟨?_, by simp, fun x hx _ _ => hq x hx⟩
    exact List.Pairwise.imp_of_mem (fun {x _} hx _ _ => hq x hx)
      (List.pairwise_of_forall fun _ _ => trivial)
  | replaced hr _ _ _ =>
    refine hof ?_
    rcases hr with h | h <;> simp [h]
  | superseded hk _ _ _ => exact hof (by simp [hk])

/-- An event that neither accepts nor hands out nor suppresses, on a queue
left as it was but for its counters, its clock and its flight. -/
theorem Gated.quiet {w : Watched β} (hw : Gated w) {q' : BoundedOutputQueue β} {e : Event β}
    (hsupp : q'.suppressed = w.queue.suppressed) (hclosed : q'.closed = w.queue.closed)
    (hunsent : q'.unsent = w.queue.unsent) (hitem : e.item? = none) (hout : e.output? = none)
    (hne : e ≠ .suppressed) : Gated ⟨q', w.events ++ [e]⟩ := by
  obtain ⟨h₁, h₂, h₃, h₄, h₅, h₆⟩ := hw
  refine ⟨?_, ?_, ?_, ?_, ?_, ?_⟩
  · rw [hsupp, h₁, List.mem_append, List.mem_singleton]
    exact ⟨.inl, fun h => h.elim id fun h => absurd h.symm hne⟩
  · simpa [hclosed, hitem] using h₂
  · simpa [hclosed, hunsent] using h₃
  · simpa [hunsent] using h₄
  · simpa [hout, hunsent, hclosed] using h₅
  · refine lawful_append_singleton.2 ⟨h₆, ?_⟩
    cases e with
    | accepted item now idle => simp [Event.item?] at hitem
    | taken output => simp [Event.output?] at hout
    | _ => trivial

/-- **Every call keeps the gates.** -/
theorem Gated.call {w : Watched β} (hw : Gated w) (c : Call β) : Gated (w.call c) := by
  unfold Watched.call
  cases c with
  | offer item now =>
    rcases offer_cases w.queue item now with ⟨hsame, hno⟩ | ⟨hv, hyes, old, ho⟩
    · rw [event_offer_of_refuses hno]
      exact hw.quiet (by simp [BoundedOutputQueue.call, hsame]) (by simp [BoundedOutputQueue.call, hsame]) (by simp [BoundedOutputQueue.call, hsame]) rfl rfl
        (by simp)
    obtain ⟨hopen, hgate, hshut, -⟩ := offer_of_accepts hyes
    obtain ⟨h₁, h₂, h₃, h₄, h₅, h₆⟩ := hw
    rw [event_offer_of_accepts hyes]
    refine ⟨?_, ?_, ?_, ?_, ?_, ?_⟩
    · have := ho.suppressed
      simp [BoundedOutputQueue.call, this, h₁]
    · intro hc x hx
      have hterm : item.kind ≠ .terminal := by simpa [BoundedOutputQueue.call, hshut] using hc
      simp only [List.filterMap_append, List.mem_append] at hx
      rcases hx with hx | hx
      · exact h₂ hopen x hx
      · obtain rfl : x = item := by simpa [Event.item?, List.filterMap_cons] using hx
        exact hterm
    · intro hc x hx
      have hterm : item.kind ≠ .terminal := by simpa [BoundedOutputQueue.call, hshut] using hc
      rcases ho.items.mem hx with h | rfl
      · exact h₃ hopen x h
      · exact hterm
    · exact ho.items.last (h₃ hopen)
    · intro hex
      have := h₅ (by simpa [Event.output?, List.filterMap_cons] using hex)
      simp [hopen] at this
    · refine lawful_append_singleton.2 ⟨h₆, h₂ hopen, fun hs => ?_⟩
      have hsupp : w.queue.suppressed = true := h₁.2 hs
      simpa [hsupp] using hgate
  | take =>
    cases hq : w.queue.unsent with
    | nil =>
      have htake : w.queue.take = (w.queue, none) := by simp [BoundedOutputQueue.take, hq]
      simp only [event, BoundedOutputQueue.call, htake]
      exact hw.quiet rfl rfl rfl rfl rfl (by simp)
    | cons item rest =>
      obtain ⟨h₁, h₂, h₃, h₄, h₅, h₆⟩ := hw
      rw [hq] at h₃ h₄ h₅
      obtain ⟨hitem, hrest⟩ := List.pairwise_cons.1 h₄
      have hnot : ¬ ∃ o ∈ w.events.filterMap Event.output?, o.item.kind = .terminal :=
        fun h => by simpa using (h₅ h).1
      simp only [event, BoundedOutputQueue.call, BoundedOutputQueue.take, hq]
      refine ⟨?_, ?_, ?_, hrest, ?_, ?_⟩
      · simp [h₁]
      · simpa [Event.item?, List.filterMap_cons] using h₂
      · exact fun hc x hx => h₃ hc x (List.mem_cons_of_mem _ hx)
      · rintro ⟨o, ho, hterm⟩
        simp only [List.filterMap_append, List.mem_append] at ho
        rcases ho with ho | ho
        · exact absurd ⟨o, ho, hterm⟩ hnot
        · -- The terminal outcome was last, and the queue is closed behind it.
          obtain rfl : o = ⟨w.queue.lastSequence + 1, item⟩ := by
            simpa [Event.output?, List.filterMap_cons, eq_comm] using ho
          refine ⟨?_, ?_⟩
          · cases hr : rest with
            | nil => rfl
            | cons y ys => exact absurd hterm (hitem y (by simp [hr]))
          · cases hc : w.queue.closed with
            | true => rfl
            | false => exact absurd hterm (h₃ hc item (by simp))
      · refine lawful_append_singleton.2 ⟨h₆, fun o ho hterm => hnot ⟨o, ho, hterm⟩⟩
  | delivered sequence now =>
    rcases delivered_cases w.queue sequence now with ⟨hev, hsame⟩ | ⟨hev, _, _, _, _, -, hq⟩
    · rw [hev]
      exact hw.quiet (by simp [BoundedOutputQueue.call, hsame]) (by simp [BoundedOutputQueue.call, hsame]) (by simp [BoundedOutputQueue.call, hsame]) rfl rfl
        (by simp)
    · rw [hev]
      exact hw.quiet (by simp [BoundedOutputQueue.call, hq]) (by simp [BoundedOutputQueue.call, hq]) (by simp [BoundedOutputQueue.call, hq]) rfl rfl
        (by simp)
  | suppress =>
    obtain ⟨pcm, metadata, hq⟩ := suppress_eq w.queue
    obtain ⟨h₁, h₂, h₃, h₄, h₅, h₆⟩ := hw
    simp only [event, BoundedOutputQueue.call, hq]
    refine ⟨?_, ?_, ?_, ?_, ?_, ?_⟩
    · simp
    · simpa [Event.item?, List.filterMap_cons] using h₂
    · exact fun hc x hx => h₃ hc x (List.mem_of_mem_filter hx)
    · exact h₄.filter _
    · intro hex
      obtain ⟨hnil, hc⟩ := h₅ (by simpa [Event.output?, List.filterMap_cons] using hex)
      simp [hnil, hc]
    · exact lawful_append_singleton.2 ⟨h₆, trivial⟩

/-! ## The stall clock -/

/-- **The stall clock** runs while something awaits delivery, from the
last event that moved it. -/
def Clocked (w : Watched β) : Prop :=
  w.queue.stalledSince =
      (if w.queue.pendingLocked then (w.events.filterMap Event.progress?).getLast? else none) ∧
    (w.queue.pendingLocked = true → w.events.filterMap Event.progress? ≠ [])

theorem progress_append {es : List (Event β)} {e : Event β} (h : e.progress? = none) :
    (es ++ [e]).filterMap Event.progress? = es.filterMap Event.progress? := by
  rw [List.filterMap_append, List.filterMap_cons_none h, List.filterMap_nil, List.append_nil]

/-- An event that does not move the clock, on a queue whose clock stood. -/
theorem Clocked.quiet {w : Watched β} (hw : Clocked w) {q' : BoundedOutputQueue β} {e : Event β}
    (hstalled : q'.stalledSince = w.queue.stalledSince)
    (hpending : q'.pendingLocked = w.queue.pendingLocked) (he : e.progress? = none) :
    Clocked ⟨q', w.events ++ [e]⟩ := by
  unfold Clocked at hw ⊢
  dsimp only
  rw [hstalled, hpending, progress_append he]
  exact hw

/-- **Every call keeps the clock.** -/
theorem Clocked.call {w : Watched β} (hw : Clocked w) (c : Call β) : Clocked (w.call c) := by
  unfold Watched.call
  cases c with
  | offer item now =>
    rcases offer_cases w.queue item now with ⟨hsame, hno⟩ | ⟨hv, hyes, old, ho⟩
    · rw [event_offer_of_refuses hno]
      exact hw.quiet (by simp [BoundedOutputQueue.call, hsame])
        (by simp [BoundedOutputQueue.call, hsame]) rfl
    obtain ⟨-, -, -, hstalled⟩ := offer_of_accepts hyes
    have hpending : (w.queue.offer item now).1.pendingLocked = true := by
      have hne : (w.queue.offer item now).1.unsent ≠ [] := by
        have h := ho.items
        generalize (w.queue.offer item now).1.unsent = unsent at h
        cases h <;> simp
      simp [pendingLocked, hne]
    rw [event_offer_of_accepts hyes]
    by_cases hp : w.queue.pendingLocked = true
    · rw [if_pos hp] at hstalled
      exact hw.quiet hstalled (hpending.trans hp.symm) (by simp [hp, Event.progress?])
    · rw [if_neg hp] at hstalled
      refine ⟨?_, fun _ => by simp [hp, Event.progress?]⟩
      simp only [BoundedOutputQueue.call, hpending, hstalled, if_true]
      simp [hp, Event.progress?]
  | take =>
    cases hq : w.queue.unsent with
    | nil =>
      have htake : w.queue.take = (w.queue, none) := by simp [BoundedOutputQueue.take, hq]
      simp only [event, BoundedOutputQueue.call, htake]
      exact hw.quiet rfl rfl rfl
    | cons item rest =>
      simp only [event, BoundedOutputQueue.call, BoundedOutputQueue.take, hq]
      exact hw.quiet rfl (by simp [pendingLocked, hq]) rfl
  | delivered sequence now =>
    rcases delivered_cases w.queue sequence now with ⟨hev, hsame⟩ | ⟨hev, _, rest, _, _, -, hq⟩
    · rw [hev]
      exact hw.quiet (by simp [BoundedOutputQueue.call, hsame])
        (by simp [BoundedOutputQueue.call, hsame]) rfl
    · rw [hev]
      refine ⟨?_, fun _ => by simp [Event.progress?]⟩
      simp [BoundedOutputQueue.call, hq, Event.progress?, pendingLocked]
  | suppress =>
    obtain ⟨pcm, metadata, hq⟩ := suppress_eq w.queue
    obtain ⟨hclock, hsome⟩ := hw
    have hstill : w.queue.suppress.pendingLocked = true → w.queue.pendingLocked = true := by
      rw [hq]
      unfold pendingLocked
      cases hu : w.queue.unsent <;> simp
    have hstalled : w.queue.suppress.stalledSince =
        if w.queue.suppress.pendingLocked then w.queue.stalledSince else none := by
      rw [hq]
      rfl
    refine ⟨?_, fun h => ?_⟩
    · change w.queue.suppress.stalledSince = if w.queue.suppress.pendingLocked then
        ((w.events ++ [Event.suppressed]).filterMap Event.progress?).getLast? else none
      rw [progress_append rfl, hstalled]
      by_cases hp : w.queue.suppress.pendingLocked = true
      · rw [if_pos hp, if_pos hp, hclock, if_pos (hstill hp)]
      · rw [if_neg hp, if_neg hp]
    · simp only [event]
      rw [progress_append rfl]
      exact hsome (hstill h)

theorem clocked_start (budgets : SessionBudgets) :
    Clocked (⟨ofBudgets budgets, []⟩ : Watched β) :=
  ⟨rfl, nofun⟩

/-! ## Every sequence of calls -/

theorem watched_invariant {I : Watched β → Prop} (budgets : SessionBudgets)
    (hstart : I ⟨ofBudgets budgets, []⟩) (hcall : ∀ w c, I w → I (w.call c)) (cs : List (Call β)) :
    I (watched budgets cs) := by
  induction cs using List.reverseRecOn with
  | nil => exact hstart
  | append_singleton cs c ih =>
    unfold watched at ih ⊢
    rw [List.foldl_append]
    exact hcall _ c ih

theorem map_sequence_sequenced (items : List (OutputItem β)) :
    (sequenced items).map SequencedOutput.sequence = List.range' 1 items.length := by
  unfold sequenced
  rw [List.map_map]
  exact List.zipIdx_map_snd 1 items

/-- **What `take` hands out, over every sequence of calls.** The items
taken are the served places of the line in their order, numbered from 1;
the waiting places are what is still unsent. Every accepted item, and
nothing else, holds or held exactly one place of the line; places stand
in the order they were opened. One occupant of a place succeeds another
only as an item of its kind and key, later accepted; a superseded place
is that of a partial, closed by a later accepted result of its key; a
discarded one is that of task output, after a suppression. No task output
is accepted after a suppression and nothing after the terminal outcome,
which is the last item ever taken. And the stall clock stands at the last
of the confirmed deliveries and the offers that ended an idle time,
exactly while an item is unsent or in flight. -/
theorem takes_follow_the_line (budgets : SessionBudgets) (cs : List (Call β)) :
    let q := (watched budgets cs).queue
    let es := (watched budgets cs).events
    let line := (bookOf es).line
    let accepted := es.filterMap Event.item?
    let taken := es.filterMap Event.output?
    let progress := es.filterMap Event.progress?
    (taken = sequenced (holding .taken line) ∧
      taken.map SequencedOutput.sequence = List.range' 1 taken.length ∧
      q.unsent = holding .waiting line) ∧
    ((line.flatMap Place.occupants).Perm accepted.zipIdx ∧
      (line.Pairwise fun p p' => p.first.2 < p'.first.2) ∧
      ∀ p ∈ line,
        (p.occupants.Pairwise fun o o' => o.2 < o'.2) ∧
        (∀ o ∈ p.later, o.1.kind = p.first.1.kind ∧ o.1.replaceKey = p.first.1.replaceKey ∧
          o.1.kind ≠ .result ∧ o.1.replaceKey ≠ 0) ∧
        (∀ n, p.fate = .superseded n → p.holder.kind = .partialText ∧
          ∃ r, (r, n) ∈ accepted.zipIdx ∧ r.kind = .result ∧
            r.replaceKey = p.holder.replaceKey ∧ ∀ o ∈ p.occupants, o.2 < n) ∧
        (p.fate = .discarded → p.holder.kind.taskOutput = true ∧ .suppressed ∈ es)) ∧
    ((∀ past item now idle future, es = past ++ .accepted item now idle :: future →
        (.suppressed ∈ past → item.kind.taskOutput = false) ∧
        ∀ x ∈ past.filterMap Event.item?, x.kind ≠ .terminal) ∧
      (∀ past output future, es = past ++ .taken output :: future →
        output.item.kind = .terminal → future.filterMap Event.output? = [])) ∧
    ((q.stalledSince.isSome = true ↔ q.unsent ≠ [] ∨ q.inFlight ≠ []) ∧
      (∀ t, q.stalledSince = some t → progress.getLast? = some t) ∧
      (∀ t, q.stalledSince = some t → progress.Pairwise (· ≤ ·) → ∀ t' ∈ progress, t' ≤ t)) := by
  intro q es line accepted taken progress
  have hfollows : Follows (watched budgets cs) :=
    watched_invariant budgets (follows_start budgets) (fun _ c h => h.call c) cs
  have hgated : Gated (watched budgets cs) :=
    watched_invariant budgets (gated_start budgets) (fun _ c h => h.call c) cs
  obtain ⟨hclock, hsome⟩ : Clocked (watched budgets cs) :=
    watched_invariant budgets (clocked_start budgets) (fun _ c h => h.call c) cs
  have hkept : (bookOf es).Kept := kept_bookOf es
  have haccepted : (bookOf es).accepted = accepted := accepted_bookOf es
  have hlast : ∀ t, q.stalledSince = some t → progress.getLast? = some t := by
    intro t ht
    have h : (if q.pendingLocked then progress.getLast? else none) = some t := hclock.symm.trans ht
    split at h
    · exact h
    · simp at h
  refine ⟨⟨hfollows.taken, ?_, hfollows.unsent⟩, ⟨?_, hkept.inOrder, ?_⟩, ⟨?_, ?_⟩, ?_, hlast, ?_⟩
  · have htaken : taken = sequenced (holding .taken line) := hfollows.taken
    rw [htaken, map_sequence_sequenced, length_sequenced]
  · rw [← haccepted]
    exact hkept.all
  · intro p hp
    obtain ⟨hin, hsame, hsup, hdis⟩ := hkept.lawful p hp
    rw [haccepted] at hsup
    exact ⟨hin, hsame, hsup, fun h => ⟨hdis h, suppressed_of_discarded es hp h⟩⟩
  · intro past item now idle future hes
    obtain ⟨hterm, hsupp⟩ := hgated.lawful past _ future hes
    exact ⟨hsupp, hterm⟩
  · intro past output future hes hterm
    rw [List.filterMap_eq_nil_iff]
    intro e he
    obtain ⟨front, back, rfl⟩ := List.append_of_mem he
    have hnot := hgated.lawful (past ++ .taken output :: front) e back (by simpa using hes)
    cases e with
    | taken output' =>
      exact absurd hterm (hnot output (by simp [Event.output?]))
    | _ => rfl
  · have hpending : q.pendingLocked = true ↔ q.unsent ≠ [] ∨ q.inFlight ≠ [] := by
      simp [pendingLocked]
    rw [← hpending]
    have h : q.stalledSince = if q.pendingLocked then progress.getLast? else none := hclock
    constructor
    · intro hs
      by_contra hno
      rw [h, if_neg hno] at hs
      simp at hs
    · intro hp
      rw [h, if_pos hp, List.getLast?_isSome]
      exact hsome hp
  · intro t ht hsorted t' ht'
    obtain ⟨front, hfront⟩ := List.getLast?_eq_some_iff.1 (hlast t ht)
    rw [hfront] at hsorted ht'
    obtain ⟨-, -, hle⟩ := List.pairwise_append.1 hsorted
    rcases List.mem_append.1 ht' with h | h
    · exact hle t' h t (by simp)
    · exact (List.mem_singleton.1 h).le

end BoundedOutputQueue

end Serving

end Tensorplate
