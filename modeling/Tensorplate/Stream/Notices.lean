import Tensorplate.Session.OutputQueue
import Tensorplate.Session.Usage
import Tensorplate.Stream.Model.Exchange

/-!
# What the sink offers

The sink turns a transition into lifecycle events. An Accepted is filed
under a key of its own, so at most one waits in the queue at a time and a
newer one takes its place. Every event that carries credit carries the
credit its transition reported, and an Accepted the last sequence taken.
-/

namespace Tensorplate

namespace Stream

open Serving BoundedOutputQueue

variable {x x' x₁ : Exchange} {items items' : List (OutputItem Notice)}

/-- The sequence an Accepted names. -/
def Notice.named : Notice → Option ℕ
  | .accepted sequence _ => some sequence
  | _ => none

/-- The events among the items of a queue. -/
def noticesIn (items : List (OutputItem Notice)) : List Notice := items.filterMap (·.body)

/-- The sequences their Accepted events name. -/
def namedIn (items : List (OutputItem Notice)) : List ℕ := (noticesIn items).filterMap Notice.named

@[simp] theorem noticesIn_append (a b : List (OutputItem Notice)) :
    noticesIn (a ++ b) = noticesIn a ++ noticesIn b := List.filterMap_append

@[simp] theorem namedIn_append (a b : List (OutputItem Notice)) :
    namedIn (a ++ b) = namedIn a ++ namedIn b := by
  unfold namedIn
  rw [noticesIn_append, List.filterMap_append]

theorem namedIn_cons (item : OutputItem Notice) (items : List (OutputItem Notice)) :
    namedIn (item :: items) = namedIn [item] ++ namedIn items := namedIn_append [item] items

/-- An Accepted, and nothing else, has the key of one. -/
def Keyed (item : OutputItem Notice) : Prop :=
  keyed .control kAcceptedReplaceKey item = true ↔ namedIn [item] ≠ []

/-- **The Accepted of a queue is alone in it.** -/
structure Filed (items : List (OutputItem Notice)) : Prop where
  keys : ∀ item ∈ items, Keyed item
  alone : (namedIn items).length ≤ 1

theorem filed_nil : Filed [] := ⟨fun _ h => absurd h List.not_mem_nil, Nat.zero_le _⟩

theorem noticesIn_sublist (h : items'.Sublist items) : (noticesIn items').Sublist (noticesIn items) :=
  h.filterMap _

theorem namedIn_sublist (h : items'.Sublist items) : (namedIn items').Sublist (namedIn items) :=
  (noticesIn_sublist h).filterMap _

theorem Filed.sublist (h : Filed items) (hs : items'.Sublist items) : Filed items' :=
  ⟨fun item hi => h.keys item (hs.subset hi),
    le_trans (namedIn_sublist hs).length_le h.alone⟩

theorem keyed_lifecycleItem (size : Notice → ℕ) (event : Notice) :
    Keyed (lifecycleItem size event) := by
  unfold Keyed namedIn noticesIn
  cases event with
  | accepted sequence credit => simp [lifecycleItem, keyed, Notice.named]
  | _ => simp [lifecycleItem, keyed, Notice.named, kAcceptedReplaceKey, kPongReplaceKey,
      kStatusReplaceKey]

theorem keyed_task {kind : OutputKind} (bytes replaceKey : ℕ) (h : kind.taskOutput = true) :
    Keyed (⟨kind, bytes, replaceKey, some .task⟩ : OutputItem Notice) := by
  unfold Keyed namedIn noticesIn
  cases kind with
  | control => exact absurd h (by simp [OutputKind.taskOutput])
  | terminal => exact absurd h (by simp [OutputKind.taskOutput])
  | _ => simp [keyed, Notice.named]

theorem keyed_iff {kind : OutputKind} {key : ℕ} {item : OutputItem Notice} :
    keyed kind key item = true ↔ item.kind = kind ∧ item.replaceKey = key := by
  unfold keyed
  rw [Bool.and_eq_true, beq_iff_eq, beq_iff_eq]

/-- Nothing filed under the key of an Accepted is none of them. -/
theorem namedIn_eq_nil (h : ∀ item ∈ items, Keyed item)
    (hnone : ∀ item ∈ items, keyed .control kAcceptedReplaceKey item = false) :
    namedIn items = [] := by
  induction items with
  | nil => rfl
  | cons item rest ih =>
    rw [namedIn_cons, ih (fun i hi => h i (List.mem_cons_of_mem _ hi))
      (fun i hi => hnone i (List.mem_cons_of_mem _ hi)), List.append_nil]
    by_contra hne
    have hkey := (h item List.mem_cons_self).2 hne
    rw [hnone item List.mem_cons_self] at hkey
    exact absurd hkey (by simp)

/-- **An item that goes into the queue**: an Accepted is the only one after
it, and any other leaves the Accepted alone. -/
theorem Filed.accepts {q : BoundedOutputQueue Notice} {item : OutputItem Notice}
    {old : Option (OutputItem Notice)} (h : Filed q.unsent) (hitem : Keyed item)
    (ha : Accepts q item old items) :
    Filed items ∧ (∀ i ∈ items, i ∈ q.unsent ∨ i = item) ∧
      (namedIn items = namedIn q.unsent ∨ namedIn items = namedIn [item]) := by
  have hlen : (namedIn [item]).length ≤ 1 :=
    le_trans (List.length_filterMap_le _ _) (List.length_filterMap_le _ [item])
  -- Where it is the Accepted, it is keyed as the source's lookup looks.
  have hkeyed : namedIn [item] ≠ [] → item.kind = .control ∧ item.replaceKey = kAcceptedReplaceKey := by
    exact fun hne => keyed_iff.1 (hitem.2 hne)
  cases ha with
  | appended hnone =>
    have hmem : ∀ i ∈ q.unsent ++ [item], i ∈ q.unsent ∨ i = item := by
      intro i hi
      rcases List.mem_append.1 hi with hi | hi
      · exact .inl hi
      · exact .inr (List.mem_singleton.1 hi)
    have hkeys : ∀ i ∈ q.unsent ++ [item], Keyed i := by
      intro i hi
      rcases hmem i hi with hi | rfl
      · exact h.keys i hi
      · exact hitem
    by_cases hne : namedIn [item] = []
    · have heq : namedIn (q.unsent ++ [item]) = namedIn q.unsent := by
        rw [namedIn_append, hne, List.append_nil]
      exact ⟨⟨hkeys, by rw [heq]; exact h.alone⟩, hmem, .inl heq⟩
    · obtain ⟨hkind, hkey⟩ := hkeyed hne
      have hempty : namedIn q.unsent = [] := by
        refine namedIn_eq_nil h.keys fun i hi => ?_
        have hlook := hnone (by rw [hkind]; exact nofun) (by rw [hkey]; decide) i hi
        rwa [hkind, hkey, if_neg (by exact nofun)] at hlook
      have heq : namedIn (q.unsent ++ [item]) = namedIn [item] := by
        rw [namedIn_append, hempty, List.nil_append]
      exact ⟨⟨hkeys, by rw [heq]; exact hlen⟩, hmem, .inr heq⟩
  | @replaced front back old hrep hne hsplit hk =>
    have hmem : ∀ i ∈ front ++ item :: back, i ∈ q.unsent ∨ i = item := by
      intro i hi
      rw [hsplit]
      rcases List.mem_append.1 hi with hi | hi
      · exact .inl (List.mem_append_left _ hi)
      · rcases List.mem_cons.1 hi with rfl | hi
        · exact .inr rfl
        · exact .inl (List.mem_append_right _ (List.mem_cons_of_mem _ hi))
    have hkeys : ∀ i ∈ front ++ item :: back, Keyed i := by
      intro i hi
      rcases hmem i hi with hi | rfl
      · exact h.keys i hi
      · exact hitem
    have hold : Keyed old := h.keys old (by
      rw [hsplit]
      exact List.mem_append_right _ List.mem_cons_self)
    have hkind := keyed_iff.1 hk
    have hsame : keyed .control kAcceptedReplaceKey old = keyed .control kAcceptedReplaceKey item := by
      unfold keyed
      rw [hkind.1, hkind.2]
    have halone := h.alone
    rw [hsplit, namedIn_append, namedIn_cons, List.length_append, List.length_append] at halone
    by_cases hnil : namedIn [item] = []
    · have holdnil : namedIn [old] = [] := by
        by_contra hsome
        exact absurd hnil (hitem.1 (hsame ▸ hold.2 hsome))
      have heq : namedIn (front ++ item :: back) = namedIn q.unsent := by
        rw [hsplit, namedIn_append, namedIn_append, namedIn_cons item, namedIn_cons old, hnil,
          holdnil]
      exact ⟨⟨hkeys, by rw [heq]; exact h.alone⟩, hmem, .inl heq⟩
    · have holdsome : namedIn [old] ≠ [] := hold.1 (hsame.trans (hitem.2 hnil))
      have hpos := List.length_pos_iff.2 holdsome
      have hfront : namedIn front = [] := List.eq_nil_of_length_eq_zero (by omega)
      have hback : namedIn back = [] := List.eq_nil_of_length_eq_zero (by omega)
      have heq : namedIn (front ++ item :: back) = namedIn [item] := by
        rw [namedIn_append, namedIn_cons, hfront, hback, List.append_nil, List.nil_append]
      exact ⟨⟨hkeys, by rw [heq]; exact hlen⟩, hmem, .inr heq⟩
  | @superseded front back old hres hne hsplit hk =>
    have hmem : ∀ i ∈ front ++ back ++ [item], i ∈ q.unsent ∨ i = item := by
      intro i hi
      rw [hsplit]
      rcases List.mem_append.1 hi with hi | hi
      · rcases List.mem_append.1 hi with hi | hi
        · exact .inl (List.mem_append_left _ hi)
        · exact .inl (List.mem_append_right _ (List.mem_cons_of_mem _ hi))
      · exact .inr (List.mem_singleton.1 hi)
    have hkeys : ∀ i ∈ front ++ back ++ [item], Keyed i := by
      intro i hi
      rcases hmem i hi with hi | rfl
      · exact h.keys i hi
      · exact hitem
    have hnil : namedIn [item] = [] := by
      by_contra hsome
      have hcontrol := (hkeyed hsome).1
      rw [hres] at hcontrol
      exact absurd hcontrol (by simp)
    have holdnil : namedIn [old] = [] := by
      by_contra hsome
      have hcontrol := (h.keys old (by
        rw [hsplit]
        exact List.mem_append_right _ List.mem_cons_self)).2 hsome
      have hkind := (keyed_iff.1 hcontrol).1
      rw [(keyed_iff.1 hk).1] at hkind
      exact absurd hkind (by simp)
    have heq : namedIn (front ++ back ++ [item]) = namedIn q.unsent := by
      rw [hsplit, namedIn_append, namedIn_append, namedIn_append, namedIn_cons old, hnil, holdnil,
        List.append_nil, List.nil_append]
    exact ⟨⟨hkeys, by rw [heq]; exact h.alone⟩, hmem, .inl heq⟩

theorem Filed.offer {q : BoundedOutputQueue Notice} {item : OutputItem Notice} (h : Filed q.unsent)
    (hitem : Keyed item) (now : TimePoint) :
    Filed (q.offer item now).1.unsent ∧
      (∀ i ∈ (q.offer item now).1.unsent, i ∈ q.unsent ∨ i = item) ∧
      (namedIn (q.offer item now).1.unsent = namedIn q.unsent ∨
        namedIn (q.offer item now).1.unsent = namedIn [item]) := by
  rcases offer_cases q item now with ⟨heq, -⟩ | ⟨-, -, old, hoffered⟩
  · rw [heq]
    exact ⟨h, fun i hi => .inl hi, .inl rfl⟩
  · exact h.accepts hitem hoffered.items

/-! ## One transition -/

/-- The credit a lifecycle event reports. -/
def wireOf (c : InputCredit) : Sdk.InputCredit :=
  ⟨c.usage.used, c.usage.limit, c.waitingUsage.used, c.waitingUsage.limit⟩

theorem wireCredit_of_reports {t : ManagedSessionTransition} {c : InputCredit} (h : t.Reports c) :
    wireCredit t.status t.waitingSegments = wireOf c := by
  unfold wireCredit wireOf
  rw [h.1, h.2]

/-- The event carries this credit, if it carries credit, and names this
sequence, if it names one. -/
def Notice.Of (last : ℕ) (c : InputCredit) : Notice → Prop
  | .ready credit => credit = wireOf c
  | .accepted sequence credit => sequence = last ∧ credit = wireOf c
  | _ => True

namespace Exchange

/-- **The sink has offered events** that carry this credit; all else is the
same. -/
structure Noted (c : InputCredit) (x x' : Exchange) : Prop where
  same : x' = { x with slot := x'.slot }
  entry : x'.slot.entry = x.slot.entry
  shown : x'.slot.shown = x.slot.shown
  filed : Filed x.slot.output.unsent → Filed x'.slot.output.unsent
  news : Filed x.slot.output.unsent → ∀ event ∈ noticesIn x'.slot.output.unsent,
    event ∈ noticesIn x.slot.output.unsent ∨ event.Of x.lastAcceptedSequence c
  named : Filed x.slot.output.unsent →
    (namedIn x'.slot.output.unsent).Sublist (namedIn x.slot.output.unsent) ∨
      namedIn x'.slot.output.unsent = [x.lastAcceptedSequence]

theorem Noted.refl (c : InputCredit) (x : Exchange) : Noted c x x :=
  ⟨rfl, rfl, rfl, id, fun _ _ h => .inl h, fun _ => .inl (List.Sublist.refl _)⟩

theorem Noted.lastAcceptedSequence {c : InputCredit} (h : Noted c x x') :
    x'.lastAcceptedSequence = x.lastAcceptedSequence := by rw [h.same]

theorem sublist_of_singleton {last : ℕ} {l l' : List ℕ} (h : l'.Sublist [last]) :
    l'.Sublist l ∨ l' = [last] := by
  rcases List.sublist_singleton.1 h with rfl | rfl
  · exact .inl (List.nil_sublist _)
  · exact .inr rfl

theorem Noted.trans {c : InputCredit} (h₁ : Noted c x x₁) (h₂ : Noted c x₁ x') : Noted c x x' := by
  have hlast := h₁.lastAcceptedSequence
  refine ⟨?_, h₂.entry.trans h₁.entry, h₂.shown.trans h₁.shown,
    fun hf => h₂.filed (h₁.filed hf), fun hf event he => ?_, fun hf => ?_⟩
  · rw [h₂.same, h₁.same]
  · rcases h₂.news (h₁.filed hf) event he with he | he
    · exact h₁.news hf event he
    · rw [hlast] at he
      exact .inr he
  · rcases h₂.named (h₁.filed hf) with hsub | heq
    · rcases h₁.named hf with hsub₁ | heq₁
      · exact .inl (hsub.trans hsub₁)
      · rw [heq₁] at hsub
        exact sublist_of_singleton hsub
    · rw [hlast] at heq
      exact .inr heq

theorem noted_offer {c : InputCredit} {event : Notice} (x : Exchange)
    (h : event.Of x.lastAcceptedSequence c) : Noted c x (x.offer event) := by
  have hfile := fun hf => Filed.offer (q := x.slot.output) hf (keyed_lifecycleItem x.size event)
    (x.slot.clock x.slot.reads)
  refine ⟨rfl, rfl, rfl, fun hf => (hfile hf).1, fun hf e he => ?_, fun hf => ?_⟩
  · obtain ⟨i, hi, hbody⟩ := List.mem_filterMap.1 he
    rcases (hfile hf).2.1 i hi with hi | rfl
    · exact .inl (List.mem_filterMap.2 ⟨i, hi, hbody⟩)
    · obtain rfl := Option.some.inj hbody
      exact .inr h
  · rcases (hfile hf).2.2 with heq | heq
    · exact .inl (heq ▸ List.Sublist.refl _)
    · have heq' : namedIn (x.offer event).slot.output.unsent =
          namedIn [lifecycleItem x.size event] := heq
      rw [heq']
      cases event with
      | accepted sequence credit =>
        obtain rfl := h.1
        exact .inr rfl
      | _ => exact .inl (List.nil_sublist _)

theorem noted_offerAccepted {c : InputCredit} {t : ManagedSessionTransition} (x : Exchange)
    (h : t.Reports c) : Noted c x (x.offerAccepted t) :=
  noted_offer x ⟨rfl, wireCredit_of_reports h⟩

theorem noted_onEffect {c : InputCredit} {t : ManagedSessionTransition} (x : Exchange)
    (h : t.Reports c) (effect : LogicalSessionEffect) : Noted c x (onEffect t x effect) := by
  cases effect with
  | emitCancelAccepted => exact noted_offer x trivial
  | emitReady => exact noted_offer x (wireCredit_of_reports h)
  | acceptInput => exact noted_offerAccepted x h
  | emitReply =>
    refine noted_offer x ?_
    split
    · trivial
    · trivial
  | emitTerminal => exact noted_offer x trivial
  | _ => exact Noted.refl c x

theorem noted_effects {c : InputCredit} {t : ManagedSessionTransition} (h : t.Reports c)
    (effects : LogicalSessionEffects) (x : Exchange) :
    Noted c x (effects.foldl (onEffect t) x) := by
  induction effects generalizing x with
  | nil => exact Noted.refl c x
  | cons effect rest ih => exact (noted_onEffect x h effect).trans (ih _)

/-- The part of `on_transition` that offers. -/
theorem noted_tells {c : InputCredit} {t : ManagedSessionTransition} (h : t.Reports c)
    (x : Exchange) : Noted c x (if t.event.isSome then t.effects.foldl (onEffect t) x
      else if t.state = .active ∨ t.state = .finalizing then x.offerAccepted t else x) := by
  split
  · exact noted_effects h _ x
  · split
    · exact noted_offerAccepted x h
    · exact Noted.refl c x

/-- **A transition that takes no input.** -/
theorem noted_onTransition {c : InputCredit} {t : ManagedSessionTransition} (x : Exchange)
    (h : t.Reports c) (hnot : ¬t.TakesInput) : Noted c x (x.onTransition t) := by
  have hcount : ¬(t.event = some .data ∧ .acceptInput ∈ t.effects) := hnot
  unfold onTransition
  dsimp only
  rw [if_neg hcount]
  exact noted_tells h x

/-! ## One manager call -/

theorem shows_eq {slot : Slot Notice} {new : List ManagedSessionTransition}
    (h : slot.shown = x.slot.shown ++ new) :
    x.shows slot = new.foldl onTransition { x with slot := slot } := by
  unfold shows
  rw [h, List.drop_left]

/-- **What a plain call showed**: nothing, or transitions that report the
credit of the session there was. -/
theorem shows_plain {slot : Slot Notice} (h : x.slot.Plain slot) :
    x.shows slot = { x with slot := slot } ∨
      ∃ e, x.slot.entry = some e ∧ Noted e.credit { x with slot := slot } (x.shows slot) := by
  obtain ⟨new, hshown, hnew⟩ := h.shown
  rw [shows_eq hshown]
  rcases new with - | ⟨t, rest⟩
  · exact .inl rfl
  · obtain ⟨-, e, he, -⟩ := hnew t List.mem_cons_self
    have hnoted : ∀ (ts : List ManagedSessionTransition) (y : Exchange),
        (∀ t ∈ ts, ¬t.TakesInput ∧ t.Reports e.credit) →
        Noted e.credit y (ts.foldl onTransition y) := by
      intro ts
      induction ts with
      | nil => exact fun y _ => Noted.refl _ y
      | cons u us ih =>
        intro y hall
        obtain ⟨hnot, hrep⟩ := hall u List.mem_cons_self
        exact (noted_onTransition y hrep hnot).trans
          (ih _ fun v hv => hall v (List.mem_cons_of_mem _ hv))
    refine .inr ⟨e, he, hnoted (t :: rest) { x with slot := slot } fun u hu => ?_⟩
    obtain ⟨hnot, e', he', hrep⟩ := hnew u hu
    rw [he] at he'
    obtain rfl := Option.some.inj he'
    exact ⟨hnot, hrep⟩

theorem shows_entry {slot : Slot Notice} (h : x.slot.Plain slot) :
    (x.shows slot).slot.entry = slot.entry := by
  rcases shows_plain h with heq | ⟨e, -, hn⟩
  · rw [heq]
  · exact hn.entry

/-- **The sink was called with what a plain call showed.** -/
structure Settles (x x' : Exchange) : Prop where
  same : x' = { x with slot := x'.slot }
  entry : ∀ e', x'.slot.entry = some e' → ∃ e, x.slot.entry = some e ∧ e'.credit = e.credit
  deaf : x.slot.Deaf → x'.slot.Deaf
  filed : Filed x.slot.output.unsent → Filed x'.slot.output.unsent
  news : Filed x.slot.output.unsent → ∀ event ∈ noticesIn x'.slot.output.unsent,
    event ∈ noticesIn x.slot.output.unsent ∨
      ∃ e, x.slot.entry = some e ∧ event.Of x.lastAcceptedSequence e.credit
  named : Filed x.slot.output.unsent →
    (namedIn x'.slot.output.unsent).Sublist (namedIn x.slot.output.unsent) ∨
      namedIn x'.slot.output.unsent = [x.lastAcceptedSequence]

theorem settles_shows {slot : Slot Notice} (h : x.slot.Plain slot) : Settles x (x.shows slot) := by
  have hsub := fun hf : Filed x.slot.output.unsent => hf.sublist h.output
  have hentry := shows_entry h
  refine ⟨?_, fun e' he' => h.entry e' (hentry ▸ he'), fun hd e' he' => ?_, fun hf => ?_,
    fun hf event hev => ?_, fun hf => ?_⟩
  · rcases shows_plain h with heq | ⟨e, -, hn⟩
    · rw [heq]
    · exact hn.same
  · rw [hentry] at he'
    exact h.deaf hd e' he'
  · rcases shows_plain h with heq | ⟨e, -, hn⟩
    · rw [heq]
      exact hsub hf
    · exact hn.filed (hsub hf)
  · rcases shows_plain h with heq | ⟨e, he, hn⟩
    · rw [heq] at hev
      exact .inl ((noticesIn_sublist h.output).subset hev)
    · rcases hn.news (hsub hf) event hev with hold | hof
      · exact .inl ((noticesIn_sublist h.output).subset hold)
      · exact .inr ⟨e, he, hof⟩
  · rcases shows_plain h with heq | ⟨e, -, hn⟩
    · rw [heq]
      exact .inl (namedIn_sublist h.output)
    · rcases hn.named (hsub hf) with hs | heq
      · exact .inl (hs.trans (namedIn_sublist h.output))
      · exact .inr heq

end Exchange

end Stream

end Tensorplate
