import Mathlib.Data.List.Perm.Basic
import Mathlib.Data.List.Range
import Tensorplate.Session.OutputQueue

/-!
# The line behind the output queue

The queue is a line of places. An accepted item opens a place at the end
of the line, or takes over the place of the waiting item of its kind and
key; a result also closes the place of the waiting partial of its key.
Taking serves the first waiting place, and suppression closes the waiting
places of task output. `Book` keeps this line and says nothing of bytes,
budgets or the queue's own fields; what `take` returns over any sequence
of calls is read off it.
-/

namespace Tensorplate

namespace Serving

open Lib

namespace BoundedOutputQueue

variable {β : Type}

/-! ## What a caller sees -/

/-- What one call did, as its callers see it. -/
inductive Event (β : Type)
  /-- An offer answered `queued` or `replaced`; `idle` says that nothing
  awaited delivery before it. -/
  | accepted (item : OutputItem β) (now : TimePoint) (idle : Bool)
  | refused (item : OutputItem β) (answer : Except Error OutputOffer)
  | taken (output : SequencedOutput β)
  | nothingToTake
  | delivered (now : TimePoint)
  | outOfOrder
  | suppressed

/-- The event of a call on `q`. -/
def event (q : BoundedOutputQueue β) : Call β → Event β
  | .offer item now =>
    match (q.offer item now).2 with
    | .ok .queued | .ok .replaced => .accepted item now (!q.pendingLocked)
    | answer => .refused item answer
  | .take =>
    match q.take.2 with
    | none => .nothingToTake
    | some output => .taken output
  | .delivered sequence now =>
    match (q.delivered sequence now).2 with
    | .ok _ => .delivered now
    | .error _ => .outOfOrder
  | .suppress => .suppressed

/-- A queue and the events of the calls made on it so far. -/
structure Watched (β : Type) where
  queue : BoundedOutputQueue β
  events : List (Event β) := []

/-- One more call. -/
def Watched.call (w : Watched β) (c : Call β) : Watched β :=
  ⟨w.queue.call c, w.events ++ [w.queue.event c]⟩

/-- **A new session's queue under a sequence of calls.** -/
def watched (budgets : SessionBudgets) (cs : List (Call β)) : Watched β :=
  cs.foldl Watched.call ⟨ofBudgets budgets, []⟩

/-- The item an event accepted. -/
def Event.item? : Event β → Option (OutputItem β)
  | .accepted item _ _ => some item
  | _ => none

/-- What an event handed out. -/
def Event.output? : Event β → Option (SequencedOutput β)
  | .taken output => some output
  | _ => none

/-- When an event moved the stall clock: a confirmed delivery, or the
offer that ended an idle time. -/
def Event.progress? : Event β → Option TimePoint
  | .accepted _ now true => some now
  | .delivered now => some now
  | _ => none

/-! ## The line -/

/-- What has become of a place. -/
inductive Fate
  | waiting
  | taken
  /-- Its partial was superseded by the accepted result of this number. -/
  | superseded (result : ℕ)
  | discarded
  deriving DecidableEq

/-- **A place of the line**: the accepted item that opened it and those
that took it over in turn, each with its number among the accepted. -/
structure Place (β : Type) where
  first : OutputItem β × ℕ
  later : List (OutputItem β × ℕ) := []
  fate : Fate := .waiting

namespace Place

/-- Everything that held the place, in order. -/
def occupants (p : Place β) : List (OutputItem β × ℕ) := p.first :: p.later

/-- The item that holds the place now. -/
def holder (p : Place β) : OutputItem β := (p.occupants.getLast (List.cons_ne_nil _ _)).1

/-- The place waits with an item of `kind` and `key`. -/
def waitsFor (kind : OutputKind) (key : ℕ) (p : Place β) : Bool :=
  p.fate == .waiting && keyed kind key p.holder

/-- The place taken over by a newer item of its kind and key. -/
def takeOver (item : OutputItem β) (number : ℕ) (p : Place β) : Place β :=
  if p.waitsFor item.kind item.replaceKey then { p with later := p.later ++ [(item, number)] }
  else p

/-- The place of a partial when the result of its key is accepted. -/
def supersede (item : OutputItem β) (number : ℕ) (p : Place β) : Place β :=
  if item.kind = .result ∧ item.replaceKey ≠ 0 ∧ p.waitsFor .partialText item.replaceKey then
    { p with fate := .superseded number }
  else p

/-- The place when task output is suppressed. -/
def discard (p : Place β) : Place β :=
  if p.fate = .waiting ∧ p.holder.kind.taskOutput then { p with fate := .discarded } else p

end Place

/-- An accepted item joins the line: in the place of its kind and key if
one waits, else at the end. -/
def placeItem (item : OutputItem β) (number : ℕ) (line : List (Place β)) : List (Place β) :=
  if item.kind ≠ .result ∧ item.replaceKey ≠ 0 ∧
      line.any (Place.waitsFor item.kind item.replaceKey) then
    line.map (Place.takeOver item number)
  else line.map (Place.supersede item number) ++ [{ first := (item, number) }]

/-- The first waiting place is served. -/
def serve : List (Place β) → List (Place β)
  | [] => []
  | p :: line => if p.fate = .waiting then { p with fate := .taken } :: line else p :: serve line

/-- **The line of a sequence of events**, and the items accepted. -/
structure Book (β : Type) where
  accepted : List (OutputItem β) := []
  line : List (Place β) := []

/-- One more event. -/
def Book.enter (b : Book β) : Event β → Book β
  | .accepted item _ _ => ⟨b.accepted ++ [item], placeItem item b.accepted.length b.line⟩
  | .taken _ => { b with line := serve b.line }
  | .suppressed => { b with line := b.line.map Place.discard }
  | .refused .. | .nothingToTake | .delivered _ | .outOfOrder => b

/-- The book of a sequence of events. -/
def bookOf (es : List (Event β)) : Book β := es.foldl Book.enter {}

/-- The items holding the places of a fate, in the order of the line. -/
def holding (fate : Fate) (line : List (Place β)) : List (OutputItem β) :=
  (line.filter fun p => p.fate == fate).map Place.holder

/-- Items with the sequences a stream gives them, from 1. -/
def sequenced (items : List (OutputItem β)) : List (SequencedOutput β) :=
  (items.zipIdx 1).map fun (item, n) => ⟨n, item⟩

/-! ## How the line grows -/

variable {line : List (Place β)} {item : OutputItem β} {number : ℕ} {fate : Fate}

@[simp] theorem holding_nil : holding fate ([] : List (Place β)) = [] := rfl

@[simp] theorem holding_append (front back : List (Place β)) :
    holding fate (front ++ back) = holding fate front ++ holding fate back := by
  simp [holding]

theorem holding_cons (p : Place β) :
    holding fate (p :: line) =
      if p.fate = fate then p.holder :: holding fate line else holding fate line := by
  by_cases h : p.fate = fate <;> simp [holding, h]

theorem mem_holding {x : OutputItem β} :
    x ∈ holding fate line ↔ ∃ p ∈ line, p.fate = fate ∧ p.holder = x := by
  simp [holding, and_assoc]

namespace Place

variable {p : Place β}

theorem holder_takeOver : (takeOver item number p).holder =
    if p.waitsFor item.kind item.replaceKey then item else p.holder := by
  unfold takeOver
  split
  · simp [holder, occupants]
  · rfl

@[simp] theorem fate_takeOver : (takeOver item number p).fate = p.fate := by
  unfold takeOver
  split <;> rfl

@[simp] theorem first_takeOver : (takeOver item number p).first = p.first := by
  unfold takeOver
  split <;> rfl

@[simp] theorem occupants_supersede : (supersede item number p).occupants = p.occupants := by
  unfold supersede
  split <;> rfl

@[simp] theorem holder_supersede : (supersede item number p).holder = p.holder := by
  unfold supersede
  split <;> rfl

@[simp] theorem first_supersede : (supersede item number p).first = p.first := by
  unfold supersede
  split <;> rfl

@[simp] theorem occupants_discard : p.discard.occupants = p.occupants := by
  unfold discard
  split <;> rfl

@[simp] theorem holder_discard : p.discard.holder = p.holder := by
  unfold discard
  split <;> rfl

@[simp] theorem first_discard : p.discard.first = p.first := by
  unfold discard
  split <;> rfl

/-- A result closes no place but one that waits with its partial. -/
theorem fate_supersede : (supersede item number p).fate =
    if item.kind = .result ∧ item.replaceKey ≠ 0 ∧ p.waitsFor .partialText item.replaceKey
    then .superseded number else p.fate := by
  unfold supersede
  split <;> rfl

theorem fate_discard : p.discard.fate =
    if p.fate = .waiting ∧ p.holder.kind.taskOutput then .discarded else p.fate := by
  unfold discard
  split <;> rfl

theorem waitsFor_iff {kind : OutputKind} {key : ℕ} :
    p.waitsFor kind key = true ↔
      p.fate = .waiting ∧ p.holder.kind = kind ∧ p.holder.replaceKey = key := by
  simp [waitsFor, keyed]

end Place

theorem any_waitsFor (kind : OutputKind) (key : ℕ) :
    line.any (Place.waitsFor kind key) = (holding .waiting line).any (keyed kind key) := by
  induction line with
  | nil => rfl
  | cons p line ih =>
    rw [List.any_cons, ih, holding_cons]
    by_cases h : p.fate = .waiting <;> simp [Place.waitsFor, h]

/-- A place taken over changes its holder and no fate. -/
theorem holding_takeOver : holding fate (line.map (Place.takeOver item number)) =
    if fate = .waiting then
      (holding fate line).map fun x => if keyed item.kind item.replaceKey x then item else x
    else holding fate line := by
  induction line with
  | nil => simp
  | cons p line ih =>
    rw [List.map_cons, holding_cons, holding_cons, Place.fate_takeOver, Place.holder_takeOver, ih]
    by_cases hf : fate = .waiting
    · subst hf
      by_cases hp : p.fate = .waiting <;> simp [hp, Place.waitsFor]
    · by_cases hp : p.fate = fate <;> simp [hp, hf, Place.waitsFor]

/-- A result removes its partials from the waiting items. -/
theorem holding_waiting_supersede :
    holding .waiting (line.map (Place.supersede item number)) =
      (holding .waiting line).filter fun x =>
        !(item.kind == .result && item.replaceKey != 0 && keyed .partialText item.replaceKey x) := by
  induction line with
  | nil => rfl
  | cons p line ih =>
    rw [List.map_cons, holding_cons, holding_cons, Place.fate_supersede, Place.holder_supersede, ih]
    by_cases hp : p.fate = .waiting
    · by_cases hs : item.kind = .result ∧ item.replaceKey ≠ 0 ∧
        keyed .partialText item.replaceKey p.holder = true
      · obtain ⟨h₁, h₂, h₃⟩ := hs
        simp [hp, Place.waitsFor, h₁, h₂, h₃]
      · have hw : ¬ (item.kind = .result ∧ item.replaceKey ≠ 0 ∧
            p.waitsFor .partialText item.replaceKey = true) := by
          simpa [Place.waitsFor, hp] using hs
        rw [if_neg hw, if_pos hp, if_pos hp, List.filter_cons_of_pos]
        grind
    · simp [hp, Place.waitsFor]

theorem holding_taken_supersede :
    holding .taken (line.map (Place.supersede item number)) = holding .taken line := by
  induction line with
  | nil => rfl
  | cons p line ih =>
    rw [List.map_cons, holding_cons, holding_cons, Place.fate_supersede, Place.holder_supersede, ih]
    by_cases hp : p.fate = .waiting
    · split <;> simp [hp]
    · simp [Place.waitsFor, hp]

theorem holding_waiting_discard : holding .waiting (line.map Place.discard) =
    (holding .waiting line).filter fun x => !x.kind.taskOutput := by
  induction line with
  | nil => rfl
  | cons p line ih =>
    rw [List.map_cons, holding_cons, holding_cons, Place.fate_discard, Place.holder_discard, ih]
    by_cases hp : p.fate = .waiting
    · by_cases ht : p.holder.kind.taskOutput = true <;> simp [hp, ht]
    · simp [hp]

theorem holding_taken_discard :
    holding .taken (line.map Place.discard) = holding .taken line := by
  induction line with
  | nil => rfl
  | cons p line ih =>
    rw [List.map_cons, holding_cons, holding_cons, Place.fate_discard, Place.holder_discard, ih]
    by_cases hp : p.fate = .waiting
    · by_cases ht : p.holder.kind.taskOutput = true <;> simp [hp, ht]
    · simp [hp]

theorem holding_waiting_serve :
    holding .waiting (serve line) = (holding .waiting line).tail := by
  induction line with
  | nil => rfl
  | cons p line ih =>
    rw [serve]
    by_cases hp : p.fate = .waiting
    · simp [holding_cons, hp]
    · simp [holding_cons, hp, ih]

/-- Where no taken place stands behind a waiting one. -/
def Served (line : List (Place β)) : Prop :=
  line.Pairwise fun p p' => p.fate = .waiting → p'.fate ≠ .taken

/-- **The item served is the last one taken.** -/
theorem holding_taken_serve {x : OutputItem β} {rest : List (OutputItem β)}
    (hline : Served line) (hw : holding .waiting line = x :: rest) :
    holding .taken (serve line) = holding .taken line ++ [x] := by
  induction line with
  | nil => simp at hw
  | cons p line ih =>
    obtain ⟨hp, hrest⟩ := List.pairwise_cons.1 hline
    rw [holding_cons] at hw
    by_cases hwait : p.fate = .waiting
    · rw [if_pos hwait] at hw
      have hnone : holding .taken line = [] := by
        rw [List.eq_nil_iff_forall_not_mem]
        intro y hy
        obtain ⟨p', hp', hfate, -⟩ := mem_holding.1 hy
        exact hp p' hp' hwait hfate
      have hx : p.holder = x := (List.cons.inj hw).1
      have hholder : ({ p with fate := .taken } : Place β).holder = p.holder := rfl
      simp [serve, holding_cons, hwait, hnone, hholder, hx]
    · rw [if_neg hwait] at hw
      by_cases ht : p.fate = .taken <;> simp [serve, holding_cons, hwait, ht, ih hrest hw]

/-! ## The line accounts for every accepted item -/

/-- What one place says of those who held it. -/
structure Place.Lawful (accepted : List (OutputItem β)) (p : Place β) : Prop where
  inOrder : p.occupants.Pairwise fun a b => a.2 < b.2
  same : ∀ o ∈ p.later, o.1.kind = p.first.1.kind ∧ o.1.replaceKey = p.first.1.replaceKey ∧
    o.1.kind ≠ .result ∧ o.1.replaceKey ≠ 0
  superseded : ∀ n, p.fate = .superseded n → p.holder.kind = .partialText ∧
    ∃ r, (r, n) ∈ accepted.zipIdx ∧ r.kind = .result ∧ r.replaceKey = p.holder.replaceKey ∧
      ∀ o ∈ p.occupants, o.2 < n
  discarded : p.fate = .discarded → p.holder.kind.taskOutput = true

/-- **The book is kept**: every accepted item holds or held exactly one
place, places stand in the order they were opened, and none that waits
stands before one that was served. -/
structure Book.Kept (b : Book β) : Prop where
  all : (b.line.flatMap Place.occupants).Perm b.accepted.zipIdx
  inOrder : b.line.Pairwise fun p p' => p.first.2 < p'.first.2
  served : Served b.line
  lawful : ∀ p ∈ b.line, p.Lawful b.accepted
  unique : ∀ kind key, kind ≠ .result → key ≠ 0 →
    b.line.countP (Place.waitsFor kind key) ≤ 1

variable {b : Book β}

theorem kept_nil : Book.Kept ({} : Book β) := by
  constructor <;> simp [Served]

/-- An occupant's number is below the number of accepted items. -/
theorem Book.Kept.number_lt (hb : b.Kept) {p : Place β} (hp : p ∈ b.line)
    {o : OutputItem β × ℕ} (ho : o ∈ p.occupants) : o.2 < b.accepted.length := by
  have hmem : o ∈ b.line.flatMap Place.occupants := List.mem_flatMap.2 ⟨p, hp, ho⟩
  have hidx := List.mem_zipIdx' (hb.all.mem_iff.1 hmem)
  exact hidx.1

theorem Place.holder_mem (p : Place β) : ∃ n, (p.holder, n) ∈ p.occupants :=
  ⟨_, List.getLast_mem (List.cons_ne_nil _ _)⟩

/-- A place is what its opener was. -/
theorem Place.Lawful.holder_eq {accepted : List (OutputItem β)} {p : Place β}
    (hp : p.Lawful accepted) : p.holder.kind = p.first.1.kind ∧
      p.holder.replaceKey = p.first.1.replaceKey := by
  obtain ⟨n, hn⟩ := p.holder_mem
  rcases List.mem_cons.1 hn with h | h
  · rw [← h]
    exact ⟨rfl, rfl⟩
  · exact ⟨(hp.same _ h).1, (hp.same _ h).2.1⟩

/-- What is lawful stays so as more is accepted. -/
theorem Place.Lawful.append {accepted : List (OutputItem β)} {p : Place β}
    (hp : p.Lawful accepted) (later : List (OutputItem β)) : p.Lawful (accepted ++ later) where
  inOrder := hp.inOrder
  same := hp.same
  superseded n hn := by
    obtain ⟨hk, r, hr, hrest⟩ := hp.superseded n hn
    refine ⟨hk, r, ?_, hrest⟩
    rw [List.zipIdx_append]
    exact List.mem_append_left _ hr
  discarded := hp.discarded

theorem zipIdx_concat (accepted : List (OutputItem β)) (item : OutputItem β) :
    (accepted ++ [item]).zipIdx = accepted.zipIdx ++ [(item, accepted.length)] := by
  simp [List.zipIdx_append]

/-- A place a newer item of its kind and key takes over. -/
theorem Place.Lawful.takeOver {accepted : List (OutputItem β)} {p : Place β}
    (hp : p.Lawful accepted) (hlt : ∀ o ∈ p.occupants, o.2 < accepted.length)
    (hk : item.kind ≠ .result) (hkey : item.replaceKey ≠ 0) :
    (p.takeOver item accepted.length).Lawful (accepted ++ [item]) := by
  by_cases hw : p.waitsFor item.kind item.replaceKey = true
  swap
  · rw [Place.takeOver, if_neg hw]
    exact hp.append [item]
  obtain ⟨hfate, hkind, hrkey⟩ := Place.waitsFor_iff.1 hw
  obtain ⟨hfirst, hfkey⟩ := hp.holder_eq
  rw [Place.takeOver, if_pos hw]
  refine ⟨?_, ?_, ?_, ?_⟩
  · change (p.occupants ++ [(item, accepted.length)]).Pairwise _
    refine List.pairwise_append.2 ⟨hp.inOrder, by simp, ?_⟩
    intro o ho o' ho'
    rw [List.mem_singleton.1 ho']
    exact hlt o ho
  · intro o ho
    rcases List.mem_append.1 ho with h | h
    · exact hp.same o h
    · rw [List.mem_singleton.1 h]
      exact ⟨hkind.symm.trans hfirst, hrkey.symm.trans hfkey, hk, hkey⟩
  · intro n hn
    have : Fate.waiting = .superseded n := hfate.symm.trans hn
    simp at this
  · intro hd
    have : Fate.waiting = .discarded := hfate.symm.trans hd
    simp at this

theorem Place.Lawful.supersede {accepted : List (OutputItem β)} {p : Place β}
    (hp : p.Lawful accepted) (hlt : ∀ o ∈ p.occupants, o.2 < accepted.length) :
    (p.supersede item accepted.length).Lawful (accepted ++ [item]) := by
  by_cases hw : item.kind = .result ∧ item.replaceKey ≠ 0 ∧
      p.waitsFor .partialText item.replaceKey = true
  swap
  · rw [Place.supersede, if_neg hw]
    exact hp.append [item]
  obtain ⟨hfate, hkind, hrkey⟩ := Place.waitsFor_iff.1 hw.2.2
  rw [Place.supersede, if_pos hw]
  refine ⟨hp.inOrder, hp.same, ?_, by simp⟩
  intro n hn
  obtain rfl : accepted.length = n := by simpa using hn
  refine ⟨hkind, item, ?_, hw.1, hrkey.symm, hlt⟩
  rw [zipIdx_concat]
  exact List.mem_append_right _ (List.mem_singleton.2 rfl)

theorem Place.Lawful.discard {accepted : List (OutputItem β)} {p : Place β}
    (hp : p.Lawful accepted) : p.discard.Lawful accepted := by
  by_cases hw : p.fate = .waiting ∧ p.holder.kind.taskOutput = true
  · rw [Place.discard, if_pos hw]
    exact ⟨hp.inOrder, hp.same, by simp, fun _ => hw.2⟩
  · rw [Place.discard, if_neg hw]
    exact hp

/-- A place is taken over by at most one item, and only where it waited
for that item's kind and key. -/
theorem takeOver_of_not {p : Place β} (h : p.waitsFor item.kind item.replaceKey = false) :
    p.takeOver item number = p := by
  simp [Place.takeOver, h]

theorem map_takeOver_of_not (h : ∀ p ∈ line, p.waitsFor item.kind item.replaceKey = false) :
    line.map (Place.takeOver item number) = line :=
  (List.map_congr_left fun p hp => takeOver_of_not (h p hp)).trans (List.map_id _)

/-- **Taking over a place** adds one occupant to the line. -/
theorem flatMap_takeOver (hany : line.any (Place.waitsFor item.kind item.replaceKey) = true)
    (hone : line.countP (Place.waitsFor item.kind item.replaceKey) ≤ 1) :
    ((line.map (Place.takeOver item number)).flatMap Place.occupants).Perm
      (line.flatMap Place.occupants ++ [(item, number)]) := by
  obtain ⟨front, p, back, rfl, hp, hfront, hback⟩ :=
    exists_split_of_countP_le_one (List.any_eq_true.1 hany) hone
  have hplace : (p.takeOver item number).occupants = p.occupants ++ [(item, number)] := by
    rw [Place.takeOver, if_pos hp]
    rfl
  rw [List.map_append, List.map_cons, map_takeOver_of_not hfront, map_takeOver_of_not hback,
    List.flatMap_append, List.flatMap_append, List.flatMap_cons, List.flatMap_cons, hplace]
  simp only [List.append_assoc]
  refine List.Perm.append_left _ (List.Perm.append_left _ ?_)
  exact List.perm_append_comm

theorem waitsFor_takeOver (kind : OutputKind) (key : ℕ) (p : Place β) :
    (p.takeOver item number).waitsFor kind key = p.waitsFor kind key := by
  by_cases hw : p.waitsFor item.kind item.replaceKey = true
  · obtain ⟨hfate, hk, hkey⟩ := Place.waitsFor_iff.1 hw
    have hholder : (p.takeOver item number).holder = item := by
      rw [Place.holder_takeOver, if_pos hw]
    simp [Place.waitsFor, hholder, hfate, keyed, hk, hkey]
  · rw [takeOver_of_not (by simpa using hw)]

/-- An item admitted at the end of the line. -/
theorem Book.Kept.appended (hb : b.Kept)
    (hnone : item.kind ≠ .result → item.replaceKey ≠ 0 →
      b.line.any (Place.waitsFor item.kind item.replaceKey) = false) :
    Book.Kept ⟨b.accepted ++ [item],
      b.line.map (Place.supersede item b.accepted.length) ++
        [{ first := (item, b.accepted.length) }]⟩ := by
  refine ⟨?_, ?_, ?_, ?_, ?_⟩
  · rw [zipIdx_concat, List.flatMap_append, List.flatMap_map]
    simp only [Place.occupants_supersede]
    exact hb.all.append_right _
  · refine List.pairwise_append.2 ⟨?_, by simp, ?_⟩
    · rw [List.pairwise_map]
      simpa using hb.inOrder
    · intro p hp p' hp'
      obtain ⟨p, hmem, rfl⟩ := List.mem_map.1 hp
      rw [List.mem_singleton.1 hp', Place.first_supersede]
      exact hb.number_lt hmem (List.mem_cons_self)
  · refine List.pairwise_append.2 ⟨?_, by simp, by simp⟩
    rw [List.pairwise_map]
    refine hb.served.imp fun {p p'} h hw => ?_
    -- A place that still waits did so before, and one that was taken was taken before.
    rw [Place.fate_supersede] at hw ⊢
    split at hw
    · simp at hw
    · split
      · simp
      · exact h hw
  · intro p hp
    rcases List.mem_append.1 hp with h | h
    · obtain ⟨p, hmem, rfl⟩ := List.mem_map.1 h
      exact (hb.lawful p hmem).supersede fun o ho => hb.number_lt hmem ho
    · rw [List.mem_singleton.1 h]
      exact ⟨by simp [Place.occupants], by simp, by simp, by simp⟩
  · intro kind key hk hkey
    have hle : (b.line.map (Place.supersede item b.accepted.length)).countP
        (Place.waitsFor kind key) ≤ b.line.countP (Place.waitsFor kind key) := by
      rw [List.countP_map]
      refine List.countP_mono_left fun p _ hp => ?_
      obtain ⟨hfate, hholder⟩ := Place.waitsFor_iff.1 hp
      rw [Place.holder_supersede] at hholder
      rw [Place.fate_supersede] at hfate
      refine Place.waitsFor_iff.2 ⟨?_, hholder⟩
      split at hfate
      · simp at hfate
      · exact hfate
    have hold := hb.unique kind key hk hkey
    rw [List.countP_append, List.countP_singleton]
    split
    · next hnew =>
      obtain ⟨-, rfl, rfl⟩ := Place.waitsFor_iff.1 hnew
      have hzero : b.line.countP (Place.waitsFor item.kind item.replaceKey) = 0 := by
        rw [List.countP_eq_zero]
        intro p hp
        have := hnone hk hkey
        rw [List.any_eq_false] at this
        exact this p hp
      have heq : b.line.countP (Place.waitsFor
          (Place.holder { first := (item, b.accepted.length) }).kind
          (Place.holder { first := (item, b.accepted.length) }).replaceKey) = 0 := hzero
      omega
    · omega

/-- An item admitted in the place of its kind and key. -/
theorem Book.Kept.replaced (hb : b.Kept) (hk : item.kind ≠ .result) (hkey : item.replaceKey ≠ 0)
    (hany : b.line.any (Place.waitsFor item.kind item.replaceKey) = true) :
    Book.Kept ⟨b.accepted ++ [item], b.line.map (Place.takeOver item b.accepted.length)⟩ := by
  refine ⟨?_, ?_, ?_, ?_, ?_⟩
  · rw [zipIdx_concat]
    exact (flatMap_takeOver hany (hb.unique _ _ hk hkey)).trans (hb.all.append_right _)
  · rw [List.pairwise_map]
    simpa using hb.inOrder
  · unfold Served
    rw [List.pairwise_map]
    simp only [Place.fate_takeOver]
    exact hb.served
  · intro p hp
    obtain ⟨p, hmem, rfl⟩ := List.mem_map.1 hp
    exact (hb.lawful p hmem).takeOver (fun o ho => hb.number_lt hmem ho) hk hkey
  · intro kind key hk hkey
    rw [List.countP_map]
    have hsame : Place.waitsFor kind key ∘ Place.takeOver item b.accepted.length =
        Place.waitsFor kind key := funext fun p => waitsFor_takeOver kind key p
    rw [hsame]
    exact hb.unique kind key hk hkey

theorem Book.Kept.placeItem (hb : b.Kept) (item : OutputItem β) :
    Book.Kept ⟨b.accepted ++ [item], placeItem item b.accepted.length b.line⟩ := by
  unfold BoundedOutputQueue.placeItem
  split
  · next h => exact hb.replaced h.1 h.2.1 h.2.2
  · next h =>
    refine hb.appended fun hk hkey => ?_
    simpa [hk, hkey] using h

/-- Changing fates alone keeps a book, where no place starts to wait, none
that waits is left before one that was taken, and each place stays
lawful. -/
theorem Book.Kept.refate (hb : b.Kept)
    (hline : line.map Place.occupants = b.line.map Place.occupants)
    (hwait : ∀ kind key, line.countP (Place.waitsFor kind key) ≤
      b.line.countP (Place.waitsFor kind key))
    (hserved : Served line) (hlawful : ∀ p ∈ line, p.Lawful b.accepted) :
    Book.Kept ⟨b.accepted, line⟩ := by
  refine ⟨?_, ?_, hserved, hlawful, ?_⟩
  · rw [List.flatMap_def, hline, ← List.flatMap_def]
    exact hb.all
  · have hfirst : line.map Place.first = b.line.map Place.first := by
      have h := congrArg (List.filterMap List.head?) hline
      rw [List.filterMap_map, List.filterMap_map] at h
      have hhead : List.head? ∘ Place.occupants = fun p : Place β => some p.first := rfl
      rwa [hhead, List.filterMap_eq_map'] at h
    have h : (line.map Place.first).Pairwise fun a b => a.2 < b.2 := by
      rw [hfirst, List.pairwise_map]
      exact hb.inOrder
    rwa [List.pairwise_map] at h
  · exact fun kind key hk hkey => (hwait kind key).trans (hb.unique kind key hk hkey)

theorem Book.Kept.discard (hb : b.Kept) :
    Book.Kept ⟨b.accepted, b.line.map Place.discard⟩ := by
  have hstill : ∀ p : Place β, p.discard.fate = .waiting → p.fate = .waiting := by
    intro p h
    rw [Place.fate_discard] at h
    split at h
    · simp at h
    · exact h
  refine hb.refate ?_ ?_ ?_ ?_
  · rw [List.map_map]
    exact List.map_congr_left fun p _ => Place.occupants_discard
  · intro kind key
    rw [List.countP_map]
    refine List.countP_mono_left fun p _ hp => ?_
    obtain ⟨hfate, hholder⟩ := Place.waitsFor_iff.1 hp
    rw [Place.holder_discard] at hholder
    exact Place.waitsFor_iff.2 ⟨hstill p hfate, hholder⟩
  · unfold Served
    rw [List.pairwise_map]
    refine hb.served.imp fun {p p'} h hw => ?_
    have htaken := h (hstill p hw)
    rw [Place.fate_discard]
    split
    · simp
    · exact htaken
  · intro p hp
    obtain ⟨p, hmem, rfl⟩ := List.mem_map.1 hp
    exact (hb.lawful p hmem).discard

/-- Serving marks one waiting place, and every place before it does not
wait. -/
theorem serve_cases (line : List (Place β)) :
    (serve line = line ∧ ∀ p ∈ line, p.fate ≠ .waiting) ∨
      ∃ front p back, line = front ++ p :: back ∧ p.fate = .waiting ∧
        (∀ p' ∈ front, p'.fate ≠ .waiting) ∧
        serve line = front ++ { p with fate := .taken } :: back := by
  induction line with
  | nil => simp [serve]
  | cons p line ih =>
    rw [serve]
    by_cases hp : p.fate = .waiting
    · exact .inr ⟨[], p, line, rfl, hp, by simp, by simp [hp]⟩
    · rw [if_neg hp]
      rcases ih with ⟨hs, hnone⟩ | ⟨front, p', back, rfl, hp', hfront, hs⟩
      · exact .inl ⟨by rw [hs], by simpa [hp] using hnone⟩
      · exact .inr ⟨p :: front, p', back, rfl, hp', by simpa [hp] using hfront, by rw [hs]; rfl⟩

theorem Book.Kept.serve (hb : b.Kept) : Book.Kept ⟨b.accepted, serve b.line⟩ := by
  rcases serve_cases b.line with ⟨hs, -⟩ | ⟨front, p, back, hline, hp, hfront, hs⟩
  · rw [hs]
    exact hb
  have hserved := hb.served
  have hlawful := hb.lawful
  rw [hline] at hserved hlawful
  rw [hs]
  obtain ⟨hf, hpb, hfp⟩ := List.pairwise_append.1 hserved
  obtain ⟨hpback, hback⟩ := List.pairwise_cons.1 hpb
  refine hb.refate ?_ ?_ ?_ ?_
  · rw [hline]
    simp [Place.occupants]
  · intro kind key
    rw [hline]
    simp only [List.countP_append, List.countP_cons]
    have hno : Place.waitsFor kind key { p with fate := .taken } = false := rfl
    simp [hno]
  · refine List.pairwise_append.2 ⟨hf, List.pairwise_cons.2 ⟨by simp, hback⟩, ?_⟩
    intro p' hp' q hq hw
    exact absurd hw (hfront p' hp')
  · intro p' hp'
    rcases List.mem_append.1 hp' with h | h
    · exact hlawful p' (List.mem_append_left _ h)
    rcases List.mem_cons.1 h with rfl | h
    · have h₀ := hlawful p (by simp)
      exact ⟨h₀.inOrder, h₀.same, by simp, by simp⟩
    · exact hlawful p' (by simp [h])

/-- **Every event keeps the book.** -/
theorem Book.Kept.enter (hb : b.Kept) (e : Event β) : (b.enter e).Kept := by
  cases e with
  | accepted item now idle => exact hb.placeItem item
  | taken output => exact hb.serve
  | suppressed => exact hb.discard
  | refused item answer => exact hb
  | nothingToTake => exact hb
  | delivered now => exact hb
  | outOfOrder => exact hb

end BoundedOutputQueue

end Serving

end Tensorplate
