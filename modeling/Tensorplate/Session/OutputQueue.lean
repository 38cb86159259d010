import Mathlib.Algebra.Order.BigOperators.Group.List
import Mathlib.Algebra.Order.Group.Nat
import Tensorplate.Session.Model.OutputQueue

/-!
# The output queue's accounts

The two counters of the queue are the bytes it still owes: at every point
of every sequence of calls, what is unsent or in flight. Each call is
described once, by what it does to the items and to the counters; the
accounts follow from that description.
-/

namespace Tensorplate

namespace Serving

open Lib

/-! ## What is charged to which budget -/

/-- Kinds charged to the PCM budget. -/
def OutputKind.isPcm (kind : OutputKind) : Bool := kind == .audio

/-- Kinds charged to the metadata budget: all but audio and the terminal. -/
def OutputKind.isMetadata : OutputKind → Bool
  | .partialText | .result | .control => true
  | .audio | .terminal => false

/-- Task output charged to the metadata budget. -/
def OutputKind.isTaskMetadata : OutputKind → Bool
  | .partialText | .result => true
  | .audio | .control | .terminal => false

/-- The bytes an item counts where only kinds in `p` count. -/
def OutputKind.weight (p : OutputKind → Bool) (kind : OutputKind) (bytes : ℕ) : ℕ :=
  if p kind then bytes else 0

namespace BoundedOutputQueue

variable {β : Type} {q : BoundedOutputQueue β} {p : OutputKind → Bool}

/-- The bytes of kinds in `p` among unsent items. -/
def itemBytes (p : OutputKind → Bool) (items : List (OutputItem β)) : ℕ :=
  (items.map fun item => item.kind.weight p item.bytes).sum

/-- The bytes of kinds in `p` among items in flight. -/
def flightBytes (p : OutputKind → Bool) (items : List InFlight) : ℕ :=
  (items.map fun item => item.kind.weight p item.bytes).sum

/-- **The bytes owed**: unsent or in flight, of kinds in `p`. -/
def owed (p : OutputKind → Bool) (q : BoundedOutputQueue β) : ℕ :=
  itemBytes p q.unsent + flightBytes p q.inFlight

@[simp] theorem itemBytes_nil : itemBytes p ([] : List (OutputItem β)) = 0 := rfl

@[simp] theorem itemBytes_cons (item : OutputItem β) (items : List (OutputItem β)) :
    itemBytes p (item :: items) = item.kind.weight p item.bytes + itemBytes p items := by
  simp [itemBytes]

@[simp] theorem itemBytes_append (l l' : List (OutputItem β)) :
    itemBytes p (l ++ l') = itemBytes p l + itemBytes p l' := by
  simp [itemBytes]

@[simp] theorem flightBytes_cons (item : InFlight) (items : List InFlight) :
    flightBytes p (item :: items) = item.kind.weight p item.bytes + flightBytes p items := by
  simp [flightBytes]

@[simp] theorem flightBytes_append (l l' : List InFlight) :
    flightBytes p (l ++ l') = flightBytes p l + flightBytes p l' := by
  simp [flightBytes]

@[simp] theorem flightBytes_nil : flightBytes p [] = 0 := rfl

/-! ## The accounts -/

/-- A replaceable kind: unsent items of it are unique under a key. -/
def replaceable (kind : OutputKind) : Prop := kind = .partialText ∨ kind = .control

/-- **The accounts of a queue.** -/
structure Accounted (q : BoundedOutputQueue β) : Prop where
  reserve_le : q.controlReserve ≤ q.metadataLimit
  pcmLimit_lt : q.pcmLimit < word64
  metadataLimit_lt : q.metadataLimit < word64
  pcm : q.pcmUsed = q.owed OutputKind.isPcm
  metadata : q.metadataUsed = q.owed OutputKind.isMetadata
  pcm_le : q.pcmUsed ≤ q.pcmLimit
  metadata_le : q.metadataUsed ≤ q.metadataLimit
  task_le : q.owed OutputKind.isTaskMetadata ≤ q.metadataLimit - q.controlReserve
  valid : ∀ x ∈ q.unsent, x.valid = true
  unique : ∀ kind key, replaceable kind → key ≠ 0 → q.unsent.countP (keyed kind key) ≤ 1

theorem accounted_ofBudgets (budgets : SessionBudgets) :
    Accounted (ofBudgets budgets : BoundedOutputQueue β) := by
  have hpcm : budgets.outputPcmBytes ≤ kMaxAudioChunkBytes := by
    have h := budgets.isShaped
    unfold SessionBudgets.shaped at h
    split at h
    · omega
    · exact h.2.2.2
  have hword : kMaxAudioChunkBytes < word64 := by decide
  refine ⟨?_, ?_, ?_, rfl, rfl, Nat.zero_le _, Nat.zero_le _, Nat.zero_le _, nofun, ?_⟩
  · exact show SessionBudgets.kOutputControlReserveBytes ≤ SessionBudgets.kOutputMetadataBytes by
      decide
  · exact show budgets.outputPcmBytes < word64 by omega
  · exact show SessionBudgets.kOutputMetadataBytes < word64 by decide
  · intro kind key _ _
    simp [ofBudgets]

/-- The task part of the metadata owed. -/
theorem owed_isTaskMetadata_le (q : BoundedOutputQueue β) :
    q.owed OutputKind.isTaskMetadata ≤ q.owed OutputKind.isMetadata := by
  have hitem : ∀ kind bytes, OutputKind.weight OutputKind.isTaskMetadata kind bytes ≤
      OutputKind.weight OutputKind.isMetadata kind bytes := by
    intro kind bytes
    cases kind <;> simp! [OutputKind.weight]
  unfold owed itemBytes flightBytes
  exact Nat.add_le_add (List.sum_le_sum fun i _ => hitem i.kind i.bytes)
    (List.sum_le_sum fun i _ => hitem i.kind i.bytes)

/-! ## What an offer does -/

/-- What an accepted offer does to the unsent items: the item whose place
or utterance the new one takes, if any, and the items after it. -/
inductive Accepts (q : BoundedOutputQueue β) (item : OutputItem β) :
    Option (OutputItem β) → List (OutputItem β) → Prop
  /-- Appended; no unsent item has its place or is a partial it supersedes. -/
  | appended : (item.kind ≠ .terminal → item.replaceKey ≠ 0 → ∀ x ∈ q.unsent,
        keyed (if item.kind = .result then .partialText else item.kind) item.replaceKey x = false) →
      Accepts q item none (q.unsent ++ [item])
  /-- In the place of the unsent item of its kind and key. -/
  | replaced {front back : List (OutputItem β)} {old : OutputItem β} :
      replaceable item.kind → item.replaceKey ≠ 0 → q.unsent = front ++ old :: back →
      keyed item.kind item.replaceKey old = true →
      Accepts q item (some old) (front ++ item :: back)
  /-- Appended, superseding the partial of its utterance. -/
  | superseded {front back : List (OutputItem β)} {old : OutputItem β} :
      item.kind = .result → item.replaceKey ≠ 0 → q.unsent = front ++ old :: back →
      keyed .partialText item.replaceKey old = true →
      Accepts q item (some old) (front ++ back ++ [item])

/-- The bytes of the item an accepted offer displaced. -/
def returned (old : Option (OutputItem β)) : ℕ := (old.map (·.bytes)).getD 0

/-- **What an accepted offer does to the queue.** -/
structure Offered (q : BoundedOutputQueue β) (item : OutputItem β) (old : Option (OutputItem β))
    (q' : BoundedOutputQueue β) : Prop where
  items : Accepts q item old q'.unsent
  inFlight : q'.inFlight = q.inFlight
  limits : q'.pcmLimit = q.pcmLimit ∧ q'.metadataLimit = q.metadataLimit ∧
    q'.controlReserve = q.controlReserve
  sequence : q'.lastSequence = q.lastSequence
  suppressed : q'.suppressed = q.suppressed
  pcm : q'.pcmUsed = if item.kind = .audio then add64 (sub64 q.pcmUsed (returned old)) item.bytes
    else q.pcmUsed
  metadata : q'.metadataUsed = if item.kind.isMetadata then
      add64 (sub64 q.metadataUsed (returned old)) item.bytes else q.metadataUsed
  fits : item.kind = .terminal ∨ item.bytes ≤ returned old ∨
    (sub64 (q.used item.kind) (returned old) ≤ q.limitFor item.kind ∧
      item.bytes ≤ sub64 (q.limitFor item.kind) (sub64 (q.used item.kind) (returned old)))

/-- An answer that is not an acceptance. -/
def refuses : Except Error OutputOffer → Prop
  | .ok .queued | .ok .replaced => False
  | _ => True

variable {item : OutputItem β}

theorem replaceKey_eq_zero_of_valid (hv : item.valid = true) (hk : item.kind = .audio) :
    item.replaceKey = 0 := by
  unfold OutputItem.valid at hv
  split at hv
  · simp at hv
  · simpa [hk] using hv

/-- What the lookup of `queue_locked` found. -/
theorem findUnsentLocked_eq_none {kind : OutputKind} {key : ℕ}
    (h : q.findUnsentLocked kind key = none) (hkey : key ≠ 0) :
    ∀ x ∈ q.unsent, keyed kind key x = false := by
  simpa [findUnsentLocked, hkey, splitFirst_eq_none] using h

theorem findUnsentLocked_eq_some {kind : OutputKind} {key : ℕ} {front back : List (OutputItem β)}
    {old : OutputItem β} (h : q.findUnsentLocked kind key = some (front, old, back)) :
    key ≠ 0 ∧ q.unsent = front ++ old :: back ∧ keyed kind key old = true := by
  unfold findUnsentLocked at h
  split at h
  · simp at h
  · next hkey =>
    obtain ⟨hs, hx, -⟩ := splitFirst_eq_some h
    exact ⟨hkey, hs, hx⟩

@[simp] theorem setUsed_unsent (kind : OutputKind) (value : ℕ) :
    (q.setUsed kind value).unsent = q.unsent := by
  unfold setUsed
  split <;> rfl

@[simp] theorem setUsed_stalledSince (kind : OutputKind) (value : ℕ) :
    (q.setUsed kind value).stalledSince = q.stalledSince := by
  unfold setUsed
  split <;> rfl

/-- The queue with an item charged in place of `old`, its unsent items
`unsent`: what every accepted charge leads to, whatever became of the
stall clock. -/
theorem offered_of_charge {old : Option (OutputItem β)} {unsent : List (OutputItem β)}
    (stalled : Option TimePoint) (hterm : item.kind ≠ .terminal)
    (hitems : Accepts q item old unsent)
    (hfits : item.bytes ≤ returned old ∨
      (sub64 (q.used item.kind) (returned old) ≤ q.limitFor item.kind ∧
        item.bytes ≤ sub64 (q.limitFor item.kind) (sub64 (q.used item.kind) (returned old)))) :
    Offered q item old { q.setUsed item.kind
      (add64 (sub64 (q.used item.kind) (returned old)) item.bytes) with
        unsent := unsent, stalledSince := stalled } := by
  by_cases hk : item.kind = .audio
  · constructor <;> simp_all [setUsed, used, OutputKind.isMetadata]
  · have hmeta : item.kind.isMetadata = true := by
      revert hk hterm
      cases item.kind <;> simp [OutputKind.isMetadata]
    constructor <;> simp_all [setUsed, used]

/-- The offer of a charged item to an open queue that takes its kind. -/
theorem queueLocked_charged (now : TimePoint) (hv : item.valid = true) (hterm : item.kind ≠ .terminal)
    (hclosed : q.closed = false) (hsupp : (q.suppressed && item.kind.taskOutput) = false) :
    (q.queueLocked item now = (q, .full)) ∨
      ((q.queueLocked item now).2 ∈ [.queued, .replaced] ∧
        ∃ old, Offered q item old (q.queueLocked item now).1) := by
  unfold queueLocked
  simp only [hclosed, hsupp, Bool.false_eq_true, if_false, ne_eq, hterm, not_false_eq_true,
    if_true]
  cases hfind : q.findUnsentLocked (if item.kind = .result then .partialText else item.kind)
      item.replaceKey with
  | none =>
    dsimp only
    split
    · exact .inl rfl
    · next hfull =>
      refine .inr ⟨by simp [push], none, ?_⟩
      simp only [push, setUsed_unsent, setUsed_stalledSince]
      refine offered_of_charge _ hterm (.appended ?_) ?_
      · intro _ hkey
        exact findUnsentLocked_eq_none hfind hkey
      · simp only [Bool.and_eq_true, Bool.or_eq_true, decide_eq_true_eq] at hfull
        simp only [returned, Option.map_none, Option.getD_none]
        omega
  | some found =>
    obtain ⟨front, old, back⟩ := found
    obtain ⟨hkey, hsplit, hold⟩ := findUnsentLocked_eq_some hfind
    dsimp only
    split
    · exact .inl rfl
    · next hfull =>
      have hfits : item.bytes ≤ returned (some old) ∨
          (sub64 (q.used item.kind) (returned (some old)) ≤ q.limitFor item.kind ∧
            item.bytes ≤ sub64 (q.limitFor item.kind)
              (sub64 (q.used item.kind) (returned (some old)))) := by
        simp only [Bool.and_eq_true, Bool.or_eq_true, decide_eq_true_eq] at hfull
        simp only [returned, Option.map_some, Option.getD_some]
        omega
      by_cases hk : item.kind = .result
      · simp only [hk, if_true, reduceCtorEq, if_false]
        refine .inr ⟨by simp [push], some old, ?_⟩
        simp only [hk, if_true] at hold
        simp only [push, setUsed_stalledSince]
        rw [← hk]
        exact offered_of_charge _ hterm (.superseded hk hkey hsplit hold) hfits
      · simp only [hk, if_false] at hold ⊢
        refine .inr ⟨by simp, some old, ?_⟩
        have hr : replaceable item.kind := by
          have hne : item.kind ≠ .audio := fun h => hkey (replaceKey_eq_zero_of_valid hv h)
          unfold replaceable
          revert hk hne hterm
          cases item.kind <;> simp
        have hq := offered_of_charge q.stalledSince hterm (.replaced hr hkey hsplit hold) hfits
        rw [← setUsed_stalledSince] at hq
        exact hq

/-- The terminal outcome is appended uncharged. -/
theorem queueLocked_terminal (now : TimePoint) (hterm : item.kind = .terminal) (hclosed : q.closed = false) :
    (q.queueLocked item now).2 = .queued ∧ Offered q item none (q.queueLocked item now).1 := by
  have hq : q.queueLocked item now =
      { q with closed := true }.push item q.pendingLocked now := by
    simp [queueLocked, hterm, hclosed, OutputKind.taskOutput]
  rw [hq]
  refine ⟨rfl, .appended ?_, rfl, ⟨rfl, rfl, rfl⟩, rfl, rfl, ?_, ?_, .inl hterm⟩
  · exact fun h => absurd hterm h
  · simp [push, hterm]
  · simp [push, hterm, OutputKind.isMetadata]

/-- **One offer**: it changes nothing, or it is accepted as `Offered`
says. -/
theorem offer_cases (q : BoundedOutputQueue β) (item : OutputItem β) (now : TimePoint) :
    ((q.offer item now).1 = q ∧ refuses (q.offer item now).2) ∨
      (item.valid = true ∧ ¬ refuses (q.offer item now).2 ∧
        ∃ old, Offered q item old (q.offer item now).1) := by
  by_cases hv : item.valid = true
  swap
  · simp [offer, hv, refuses]
  by_cases hlarge : item.bytes > q.limitFor item.kind
  · simp [offer, hv, hlarge, refuses]
  have hoffer : q.offer item now = ((q.queueLocked item now).1, .ok (q.queueLocked item now).2) := by
    simp [offer, hv, hlarge]
  by_cases hclosed : q.closed = true
  · simp [hoffer, queueLocked, hclosed, refuses]
  by_cases hsupp : (q.suppressed && item.kind.taskOutput) = true
  · simp only [Bool.and_eq_true] at hsupp
    simp [hoffer, queueLocked, hclosed, hsupp, refuses]
  simp only [Bool.not_eq_true] at hclosed hsupp
  rw [hoffer]
  by_cases hterm : item.kind = .terminal
  · obtain ⟨hans, hq⟩ := queueLocked_terminal now hterm hclosed
    exact .inr ⟨hv, by simp [hans, refuses], none, hq⟩
  · rcases queueLocked_charged now hv hterm hclosed hsupp with h | ⟨hans, hq⟩
    · simp [h, refuses]
    · refine .inr ⟨hv, ?_, hq⟩
      simp only [List.mem_cons, List.not_mem_nil, or_false] at hans
      rcases hans with h | h <;> simp [h, refuses]

/-! ## The accounts are kept -/

/-- What an accepted offer does to the bytes owed. -/
theorem Accepts.itemBytes_add {old : Option (OutputItem β)} {unsent : List (OutputItem β)}
    (h : Accepts q item old unsent) (p : OutputKind → Bool) :
    itemBytes p unsent + (old.map fun o => o.kind.weight p o.bytes).getD 0 =
      itemBytes p q.unsent + item.kind.weight p item.bytes := by
  cases h with
  | appended _ => simp
  | replaced _ _ hs _ =>
    simp only [hs, itemBytes_append, itemBytes_cons, Option.map_some, Option.getD_some]
    omega
  | superseded _ _ hs _ =>
    simp only [hs, itemBytes_append, itemBytes_cons, itemBytes_nil, Option.map_some,
      Option.getD_some]
    omega

/-- A displaced item is charged where the new one is. -/
theorem Accepts.kind_old {old : OutputItem β} {unsent : List (OutputItem β)}
    (h : Accepts q item (some old) unsent) :
    old ∈ q.unsent ∧ (item.kind = .control ∧ old.kind = .control ∨
      item.kind.isTaskMetadata = true ∧ old.kind = .partialText) := by
  cases h with
  | replaced hr _ hs hold =>
    simp only [keyed, Bool.and_eq_true, beq_iff_eq] at hold
    refine ⟨by simp [hs], ?_⟩
    rcases hr with hk | hk
    · exact .inr ⟨by simp [hk, OutputKind.isTaskMetadata], hold.1.trans hk⟩
    · exact .inl ⟨hk, hold.1.trans hk⟩
  | superseded hk _ hs hold =>
    simp only [keyed, Bool.and_eq_true, beq_iff_eq] at hold
    exact ⟨by simp [hs], .inr ⟨by simp [hk, OutputKind.isTaskMetadata], hold.1⟩⟩

/-- Nothing but the offered item joins the unsent ones. -/
theorem Accepts.mem {old : Option (OutputItem β)} {unsent : List (OutputItem β)}
    (h : Accepts q item old unsent) {x : OutputItem β} (hx : x ∈ unsent) :
    x ∈ q.unsent ∨ x = item := by
  cases h with
  | appended _ => simpa using hx
  | replaced _ _ hs _ | superseded _ _ hs _ =>
    simp only [List.mem_append, List.mem_cons, List.not_mem_nil, hs] at hx ⊢
    tauto

/-- An accepted offer leaves the replaceable items unique under their keys. -/
theorem Accepts.countP_le {old : Option (OutputItem β)} {unsent : List (OutputItem β)}
    (h : Accepts q item old unsent) {kind : OutputKind} {key : ℕ} (hr : replaceable kind)
    (hkey : key ≠ 0) (hq : q.unsent.countP (keyed kind key) ≤ 1) :
    unsent.countP (keyed kind key) ≤ 1 := by
  cases h with
  | appended hnone =>
    by_cases hitem : keyed kind key item = true
    · have hitem' := hitem
      simp only [keyed, Bool.and_eq_true, beq_iff_eq] at hitem'
      obtain ⟨rfl, rfl⟩ := hitem'
      have hkinds : item.kind ≠ .terminal ∧ item.kind ≠ .result := by
        rcases hr with h | h <;> simp [h]
      have hzero : q.unsent.countP (keyed item.kind item.replaceKey) = 0 :=
        List.countP_eq_zero.2 fun x hx => by
          simpa [hkinds.2] using hnone hkinds.1 hkey x hx
      simp [hzero, hitem]
    · simpa [hitem] using hq
  | replaced _ _ hs hold =>
    have hsame : keyed kind key item = true → keyed kind key _ = true := fun hitem => by
      simp only [keyed, Bool.and_eq_true, beq_iff_eq] at hitem hold ⊢
      exact ⟨hold.1.trans hitem.1, hold.2.trans hitem.2⟩
    rw [hs] at hq
    simp only [List.countP_append, List.countP_cons] at hq ⊢
    split <;> simp_all
    omega
  | superseded hk _ hs _ =>
    have hitem : keyed kind key item = false := by
      rcases hr with rfl | rfl <;> simp [keyed, hk]
    rw [hs] at hq
    simp only [List.countP_append, List.countP_cons, List.countP_nil, hitem] at hq ⊢
    simp only [Bool.false_eq_true, if_false] at hq ⊢
    omega

theorem weight_le_itemBytes {x : OutputItem β} {items : List (OutputItem β)} (hx : x ∈ items)
    (p : OutputKind → Bool) : x.kind.weight p x.bytes ≤ itemBytes p items := by
  obtain ⟨front, back, rfl⟩ := List.append_of_mem hx
  simp only [itemBytes_append, itemBytes_cons]
  omega

theorem weight_le_flightBytes {x : InFlight} {items : List InFlight} (hx : x ∈ items)
    (p : OutputKind → Bool) : x.kind.weight p x.bytes ≤ flightBytes p items := by
  obtain ⟨front, back, rfl⟩ := List.append_of_mem hx
  simp only [flightBytes_append, flightBytes_cons]
  omega

/-- What an item of a metadata kind may use. -/
theorem Accounted.limitFor_metadata (hq : Accounted q) {kind : OutputKind}
    (hk : kind.isMetadata = true) :
    q.limitFor kind =
      if kind.isTaskMetadata then q.metadataLimit - q.controlReserve else q.metadataLimit := by
  have hsub := sub64_of_le hq.reserve_le hq.metadataLimit_lt
  cases kind <;>
    simp_all [limitFor, OutputKind.isTaskMetadata, OutputKind.isMetadata, OutputKind.taskOutput]

/-- The counter after an accepted charge: nothing wrapped, and the new
charge is within what its kind may use unless it is no larger than the
one it displaced. -/
theorem charge_fits {used returned bytes limit : ℕ} (hret : returned ≤ used) (hused : used < word64)
    (hlimit : limit < word64)
    (hfits : bytes ≤ returned ∨ (sub64 used returned ≤ limit ∧
      bytes ≤ sub64 limit (sub64 used returned))) :
    add64 (sub64 used returned) bytes = used - returned + bytes ∧
      (bytes ≤ returned ∨ used - returned + bytes ≤ limit) := by
  rw [sub64_of_le hret hused] at hfits ⊢
  rcases hfits with h | ⟨hle, h⟩
  · exact ⟨add64_of_lt (by omega), .inl h⟩
  · rw [sub64_of_le hle hlimit] at h
    exact ⟨add64_of_lt (by omega), .inr (by omega)⟩

/-- Audio displaces nothing. -/
theorem Offered.accounted_audio {old : Option (OutputItem β)} {q' : BoundedOutputQueue β}
    (hq : Accounted q) (ho : Offered q item old q') (hk : item.kind = .audio) :
    q'.pcmUsed = q.pcmUsed + item.bytes ∧ q'.metadataUsed = q.metadataUsed ∧
      q'.pcmUsed ≤ q.pcmLimit ∧ old = none := by
  have hold : old = none := by
    cases old with
    | none => rfl
    | some o =>
      have := ho.items.kind_old.2
      simp [hk, OutputKind.isTaskMetadata] at this
  subst hold
  have hfits := ho.fits
  have hpcm := ho.pcm
  have hmeta := ho.metadata
  simp only [hk, reduceCtorEq, false_or, used, limitFor, if_true, returned, Option.map_none,
    Option.getD_none, OutputKind.isMetadata, Bool.false_eq_true, if_false] at hfits hpcm hmeta
  have hlt := Nat.lt_of_le_of_lt hq.pcm_le hq.pcmLimit_lt
  obtain ⟨hsum, hle⟩ := charge_fits (Nat.zero_le _) hlt hq.pcmLimit_lt hfits
  have hpcm_le := hq.pcm_le
  rw [hsum] at hpcm
  exact ⟨by omega, hmeta, by omega, rfl⟩

/-- Metadata displaces metadata of its own part of the budget. -/
theorem Offered.accounted_metadata {old : Option (OutputItem β)} {q' : BoundedOutputQueue β}
    (hq : Accounted q) (ho : Offered q item old q') (hk : item.kind.isMetadata = true) :
    q'.pcmUsed = q.pcmUsed ∧ returned old ≤ q.metadataUsed ∧
      q'.metadataUsed = q.metadataUsed - returned old + item.bytes ∧
      (item.bytes ≤ returned old ∨
        q.metadataUsed - returned old + item.bytes ≤ q.limitFor item.kind) := by
  have hret : returned old ≤ q.metadataUsed := by
    cases hold : old with
    | none => simp [returned]
    | some o =>
      subst hold
      obtain ⟨hmem, hkind⟩ := ho.items.kind_old
      have hle := weight_le_itemBytes hmem OutputKind.isMetadata
      have hw : o.kind.weight OutputKind.isMetadata o.bytes = o.bytes := by
        rcases hkind with ⟨-, h⟩ | ⟨-, h⟩ <;> simp [h, OutputKind.weight, OutputKind.isMetadata]
      rw [hq.metadata]
      simp only [returned, Option.map_some, Option.getD_some, owed]
      omega
  have haudio : item.kind ≠ .audio := fun h => by simp [h, OutputKind.isMetadata] at hk
  have hterm : item.kind ≠ .terminal := fun h => by simp [h, OutputKind.isMetadata] at hk
  have hfits := ho.fits
  have hpcm := ho.pcm
  have hmeta := ho.metadata
  simp only [hterm, false_or, used, haudio, if_false] at hfits
  simp only [haudio, if_false] at hpcm
  simp only [hk, if_true] at hmeta
  have hlt := Nat.lt_of_le_of_lt hq.metadata_le hq.metadataLimit_lt
  have hlimit : q.limitFor item.kind < word64 := by
    rw [hq.limitFor_metadata hk]
    have := hq.metadataLimit_lt
    split <;> omega
  obtain ⟨hsum, hle⟩ := charge_fits hret hlt hlimit hfits
  exact ⟨hpcm, hret, hmeta.trans hsum, hle⟩

/-- The part of the displaced item each budget counts. -/
theorem Accepts.weight_old {old : Option (OutputItem β)} {unsent : List (OutputItem β)}
    (h : Accepts q item old unsent) :
    (old.map fun o => o.kind.weight OutputKind.isPcm o.bytes).getD 0 = 0 ∧
      (old.map fun o => o.kind.weight OutputKind.isMetadata o.bytes).getD 0 = returned old ∧
      (old.map fun o => o.kind.weight OutputKind.isTaskMetadata o.bytes).getD 0 =
        if item.kind.isTaskMetadata then returned old else 0 := by
  cases old with
  | none => simp [returned]
  | some o =>
    simp only [Option.map_some, Option.getD_some, returned]
    rcases h.kind_old.2 with ⟨hk, ho⟩ | ⟨hk, ho⟩
    · simp! [hk, ho, OutputKind.weight, OutputKind.isPcm]
    · simp only [hk, ho, if_true]
      simp! [OutputKind.weight, OutputKind.isPcm]

/-- The accounts of a queue under the limits of an accounted one. -/
theorem Accounted.of_counts {q' : BoundedOutputQueue β} (hq : Accounted q)
    (hlimits : q'.pcmLimit = q.pcmLimit ∧ q'.metadataLimit = q.metadataLimit ∧
      q'.controlReserve = q.controlReserve)
    (hpcm : q'.pcmUsed = q'.owed OutputKind.isPcm ∧ q'.pcmUsed ≤ q.pcmLimit)
    (hmeta : q'.metadataUsed = q'.owed OutputKind.isMetadata ∧
      q'.metadataUsed ≤ q.metadataLimit)
    (htask : q'.owed OutputKind.isTaskMetadata ≤ q.metadataLimit - q.controlReserve)
    (hvalid : ∀ x ∈ q'.unsent, x.valid = true)
    (hunique : ∀ kind key, replaceable kind → key ≠ 0 →
      q'.unsent.countP (keyed kind key) ≤ 1) : Accounted q' := by
  obtain ⟨hp, hm, hr⟩ := hlimits
  have h₁ := hq.reserve_le
  have h₂ := hq.pcmLimit_lt
  have h₃ := hq.metadataLimit_lt
  exact ⟨by omega, by omega, by omega, hpcm.1, hmeta.1, by omega, by omega, by omega, hvalid,
    hunique⟩

/-- What an accepted offer does to the three amounts owed. -/
theorem Offered.owed_eq {old : Option (OutputItem β)} {q' : BoundedOutputQueue β}
    (ho : Offered q item old q') :
    q'.owed OutputKind.isPcm = q.owed OutputKind.isPcm +
        item.kind.weight OutputKind.isPcm item.bytes ∧
      q'.owed OutputKind.isMetadata + returned old = q.owed OutputKind.isMetadata +
        item.kind.weight OutputKind.isMetadata item.bytes ∧
      q'.owed OutputKind.isTaskMetadata + (if item.kind.isTaskMetadata then returned old else 0) =
        q.owed OutputKind.isTaskMetadata +
          item.kind.weight OutputKind.isTaskMetadata item.bytes := by
  obtain ⟨hw₁, hw₂, hw₃⟩ := ho.items.weight_old
  have h₁ := ho.items.itemBytes_add OutputKind.isPcm
  have h₂ := ho.items.itemBytes_add OutputKind.isMetadata
  have h₃ := ho.items.itemBytes_add OutputKind.isTaskMetadata
  unfold owed
  rw [ho.inFlight]
  omega

/-- **An offer keeps the accounts.** -/
theorem Accounted.offer (hq : Accounted q) (item : OutputItem β) (now : TimePoint) :
    Accounted (q.offer item now).1 := by
  rcases offer_cases q item now with ⟨hsame, -⟩ | ⟨hv, -, old, ho⟩
  · rw [hsame]
    exact hq
  generalize (q.offer item now).1 = q' at ho
  obtain ⟨hpcm, hmeta, htask⟩ := ho.owed_eq
  have hq₁ := hq.pcm
  have hq₂ := hq.metadata
  have hq₃ := hq.pcm_le
  have hq₄ := hq.metadata_le
  have hq₅ := hq.task_le
  have hparts := q.owed_isTaskMetadata_le
  have hunique : ∀ kind key, replaceable kind → key ≠ 0 →
      q'.unsent.countP (keyed kind key) ≤ 1 := fun kind key hr hkey =>
    ho.items.countP_le hr hkey (hq.unique kind key hr hkey)
  have hvalid : ∀ x ∈ q'.unsent, x.valid = true := fun x hx =>
    (ho.items.mem hx).elim (hq.valid x) fun h => h ▸ hv
  by_cases hk : item.kind.isMetadata = true
  · obtain ⟨hp, hret, hm, hle⟩ := ho.accounted_metadata hq hk
    rw [hq.limitFor_metadata hk] at hle
    have hw : item.kind.weight OutputKind.isPcm item.bytes = 0 := by
      revert hk
      cases item.kind <;> simp! [OutputKind.weight, OutputKind.isPcm]
    simp only [OutputKind.weight, hk, if_true] at hmeta htask
    refine hq.of_counts ho.limits (by omega) ⟨by omega, ?_⟩ ?_ hvalid hunique
    · split at hle <;> omega
    · split at hle <;> simp_all
      omega
  by_cases ha : item.kind = .audio
  · obtain ⟨hp, hm, hle, rfl⟩ := ho.accounted_audio hq ha
    simp only [ha, OutputKind.weight, OutputKind.isPcm, OutputKind.isMetadata,
      OutputKind.isTaskMetadata, returned, Option.map_none, Option.getD_none, beq_self_eq_true,
      if_true, Bool.false_eq_true, if_false] at hpcm hmeta htask
    exact hq.of_counts ho.limits (by omega) (by omega) (by omega) hvalid hunique
  · -- The terminal outcome is charged to neither budget.
    have hterm : item.kind = .terminal := by
      revert hk ha
      cases item.kind <;> simp! 
    have hold : old = none := by
      cases old with
      | none => rfl
      | some o => simpa! [hterm] using ho.items.kind_old.2
    have hp := ho.pcm
    have hm := ho.metadata
    subst hold
    simp only [hterm, OutputKind.weight, OutputKind.isPcm, OutputKind.isMetadata,
      OutputKind.isTaskMetadata, returned, Option.map_none, Option.getD_none, reduceCtorEq,
      beq_iff_eq, Bool.false_eq_true, if_false] at hpcm hmeta htask hp hm
    exact hq.of_counts ho.limits (by omega) (by omega) (by omega) hvalid hunique

theorem Accounted.take (hq : Accounted q) : Accounted q.take.1 := by
  unfold BoundedOutputQueue.take
  split
  · exact hq
  · next item rest hunsent =>
    have howed : ∀ p, owed p { q with
        lastSequence := q.lastSequence + 1
        unsent := rest
        inFlight := q.inFlight ++ [⟨q.lastSequence + 1, item.kind, item.bytes⟩] } =
        q.owed p := by
      intro p
      simp only [owed, hunsent, itemBytes_cons, flightBytes_append, flightBytes_cons,
        flightBytes_nil]
      omega
    refine hq.of_counts ⟨rfl, rfl, rfl⟩ ⟨?_, hq.pcm_le⟩ ⟨?_, hq.metadata_le⟩ ?_ ?_ ?_
    · exact hq.pcm.trans (howed _).symm
    · exact hq.metadata.trans (howed _).symm
    · rw [howed]
      exact hq.task_le
    · exact fun x hx => hq.valid x (by simpa [hunsent] using Or.inr hx)
    · intro kind key hr hkey
      have h := hq.unique kind key hr hkey
      rw [hunsent, List.countP_cons] at h
      exact Nat.le_trans (Nat.le_add_right _ _) h

/-- Returning a charge the counter holds does not wrap. -/
theorem discharge_counts (kind : OutputKind) (bytes : ℕ)
    (hp : kind.weight OutputKind.isPcm bytes ≤ q.pcmUsed) (hpw : q.pcmUsed < word64)
    (hm : kind.weight OutputKind.isMetadata bytes ≤ q.metadataUsed)
    (hmw : q.metadataUsed < word64) :
    q.discharge kind bytes = { q with
      pcmUsed := q.pcmUsed - kind.weight OutputKind.isPcm bytes
      metadataUsed := q.metadataUsed - kind.weight OutputKind.isMetadata bytes } := by
  unfold discharge
  split
  · next h =>
    subst h
    simp! only [OutputKind.weight, OutputKind.isPcm, beq_self_eq_true, if_true] at hp ⊢
    rw [sub64_of_le hp hpw]
    simp
  · next ha =>
    split
    · next ht =>
      have hk : kind.isMetadata = true := by
        revert ha ht
        cases kind <;> simp!
      simp only [OutputKind.weight, OutputKind.isPcm, hk, ha, beq_iff_eq, if_true, if_false] at hm ⊢
      rw [sub64_of_le hm hmw]
      simp
    · next ht =>
      have hk : kind = .terminal := by simpa using ht
      subst hk
      simp! [OutputKind.weight, OutputKind.isPcm]

theorem Accounted.delivered (hq : Accounted q) (sequence : ℕ) (now : TimePoint) :
    Accounted (q.delivered sequence now).1 := by
  unfold BoundedOutputQueue.delivered
  split
  · exact hq
  · next done rest hflight =>
    split
    · exact hq
    · have hword₁ := Nat.lt_of_le_of_lt hq.pcm_le hq.pcmLimit_lt
      have hword₂ := Nat.lt_of_le_of_lt hq.metadata_le hq.metadataLimit_lt
      have howed : ∀ p, q.owed p = done.kind.weight p done.bytes +
          (itemBytes p q.unsent + flightBytes p rest) := by
        intro p
        simp only [owed, hflight, flightBytes_cons]
        omega
      have h₁ := hq.pcm
      have h₂ := hq.metadata
      have h₃ := hq.pcm_le
      have h₄ := hq.metadata_le
      have h₅ := hq.task_le
      rw [howed] at h₁ h₂ h₅
      have hd := discharge_counts (q := { q with inFlight := rest })
        done.kind done.bytes (by dsimp only; omega) hword₁ (by dsimp only; omega) hword₂
      dsimp only
      rw [hd]
      refine hq.of_counts ⟨rfl, rfl, rfl⟩ ⟨?_, ?_⟩ ⟨?_, ?_⟩ ?_ hq.valid hq.unique <;>
        simp only [owed] <;> omega

/-- **The loop of `suppress`**: what it keeps, and the charges it returns. -/
theorem discardTaskOutput_eq (items : List (OutputItem β))
    (hp : itemBytes OutputKind.isPcm items ≤ q.pcmUsed) (hpw : q.pcmUsed < word64)
    (hm : itemBytes OutputKind.isTaskMetadata items ≤ q.metadataUsed)
    (hmw : q.metadataUsed < word64) :
    q.discardTaskOutput items =
      ({ q with
          pcmUsed := q.pcmUsed - itemBytes OutputKind.isPcm items
          metadataUsed := q.metadataUsed - itemBytes OutputKind.isTaskMetadata items },
        items.filter fun item => !item.kind.taskOutput) := by
  induction items generalizing q with
  | nil => simp [discardTaskOutput]
  | cons item rest ih =>
    rw [itemBytes_cons] at hp hm
    rw [discardTaskOutput]
    by_cases hk : item.kind.taskOutput = true
    · have hw : item.kind.weight OutputKind.isMetadata item.bytes =
          item.kind.weight OutputKind.isTaskMetadata item.bytes := by
        revert hk
        cases item.kind <;> simp! [OutputKind.weight]
      simp only [hk, Bool.not_true, Bool.false_eq_true, if_false]
      rw [discharge_counts item.kind item.bytes (by omega) hpw (by omega) hmw, hw,
        ih (by dsimp only; omega) (by dsimp only; omega) (by dsimp only; omega)
          (by dsimp only; omega)]
      simp only [Nat.sub_sub, itemBytes_cons, List.filter_cons, hk, Bool.not_true,
        Bool.false_eq_true, if_false]
    · have hw₁ : item.kind.weight OutputKind.isPcm item.bytes = 0 := by
        revert hk
        cases item.kind <;> simp! [OutputKind.weight, OutputKind.isPcm]
      have hw₂ : item.kind.weight OutputKind.isTaskMetadata item.bytes = 0 := by
        revert hk
        cases item.kind <;> simp! [OutputKind.weight]
      simp only [hk, Bool.not_false, if_true]
      rw [ih (by omega) hpw (by omega) hmw]
      simp [hw₁, hw₂, hk]

/-- What suppression keeps of the unsent bytes. -/
theorem itemBytes_filter (items : List (OutputItem β)) :
    itemBytes OutputKind.isPcm (items.filter fun item => !item.kind.taskOutput) = 0 ∧
      itemBytes OutputKind.isMetadata (items.filter fun item => !item.kind.taskOutput) +
        itemBytes OutputKind.isTaskMetadata items = itemBytes OutputKind.isMetadata items ∧
      itemBytes OutputKind.isTaskMetadata (items.filter fun item => !item.kind.taskOutput) = 0 := by
  induction items with
  | nil => simp
  | cons item rest ih =>
    obtain ⟨h₁, h₂, h₃⟩ := ih
    rw [List.filter_cons]
    cases hk : item.kind <;>
      simp! [hk, OutputKind.weight, OutputKind.isPcm, h₁, h₃] <;> omega

theorem Accounted.suppress (hq : Accounted q) : Accounted q.suppress := by
  have hword₁ := Nat.lt_of_le_of_lt hq.pcm_le hq.pcmLimit_lt
  have hword₂ := Nat.lt_of_le_of_lt hq.metadata_le hq.metadataLimit_lt
  obtain ⟨h₁, h₂, h₃⟩ := itemBytes_filter q.unsent
  have hp := hq.pcm
  have hm := hq.metadata
  have hple := hq.pcm_le
  have hmle := hq.metadata_le
  have htle := hq.task_le
  unfold owed at hp hm htle
  unfold BoundedOutputQueue.suppress
  rw [discardTaskOutput_eq (q := { q with suppressed := true }) q.unsent
    (by dsimp only; omega) hword₁ (by dsimp only; omega) hword₂]
  refine hq.of_counts ⟨rfl, rfl, rfl⟩ ⟨?_, ?_⟩ ⟨?_, ?_⟩ ?_ ?_ ?_
  · simp only [owed]; omega
  · simp only; omega
  · simp only [owed]; omega
  · simp only; omega
  · simp only [owed]; omega
  · exact fun x hx => hq.valid x (List.mem_of_mem_filter hx)
  · intro kind key hr hkey
    exact Nat.le_trans (List.Sublist.countP_le List.filter_sublist) (hq.unique kind key hr hkey)

/-! ## Every sequence of calls -/

/-- One call on the queue. -/
inductive Call (β : Type)
  | offer (item : OutputItem β) (now : TimePoint)
  | take
  | delivered (sequence : ℕ) (now : TimePoint)
  | suppress

/-- The queue after a call. -/
def call (q : BoundedOutputQueue β) : Call β → BoundedOutputQueue β
  | .offer item now => (q.offer item now).1
  | .take => q.take.1
  | .delivered sequence now => (q.delivered sequence now).1
  | .suppress => q.suppress

theorem Accounted.call (hq : Accounted q) (c : Call β) : Accounted (q.call c) := by
  cases c with
  | offer item now => exact hq.offer item now
  | take => exact hq.take
  | delivered sequence now => exact hq.delivered sequence now
  | suppress => exact hq.suppress

theorem Accounted.calls (hq : Accounted q) (cs : List (Call β)) :
    Accounted (cs.foldl BoundedOutputQueue.call q) := by
  induction cs generalizing q with
  | nil => exact hq
  | cons c cs ih => exact ih (hq.call c)

/-- **The accounts after every sequence of calls.** The two counters are
the bytes unsent or in flight of the kinds they stand for, so that no
subtraction the queue makes can wrap; both are within their limits, the
task metadata within its part; an unsent partial or keyed reply is the
only one of its key; and an offer that was not accepted changed nothing. -/
theorem calls_accounts_exact (budgets : SessionBudgets) (cs : List (Call β)) :
    let q := cs.foldl BoundedOutputQueue.call (ofBudgets budgets)
    q.pcmUsed = q.owed OutputKind.isPcm ∧
    q.metadataUsed = q.owed OutputKind.isMetadata ∧
    ((∀ x ∈ q.unsent, x.kind.weight OutputKind.isPcm x.bytes ≤ q.pcmUsed ∧
        x.kind.weight OutputKind.isMetadata x.bytes ≤ q.metadataUsed) ∧
      (∀ x ∈ q.inFlight, x.kind.weight OutputKind.isPcm x.bytes ≤ q.pcmUsed ∧
        x.kind.weight OutputKind.isMetadata x.bytes ≤ q.metadataUsed) ∧
      itemBytes OutputKind.isPcm q.unsent ≤ q.pcmUsed ∧
      itemBytes OutputKind.isTaskMetadata q.unsent ≤ q.metadataUsed ∧
      q.controlReserve ≤ q.metadataLimit) ∧
    q.pcmUsed ≤ q.pcmLimit ∧ q.metadataUsed ≤ q.metadataLimit ∧
    q.owed OutputKind.isTaskMetadata ≤ q.metadataLimit - q.controlReserve ∧
    (∀ utterance,
      q.unsent.countP (fun x => x.kind == .partialText && x.replaceKey == utterance) ≤ 1) ∧
    (∀ key, key ≠ 0 →
      q.unsent.countP (fun x => x.kind == .control && x.replaceKey == key) ≤ 1) ∧
    (∀ item now, (q.offer item now).2 = .ok .full ∨ (q.offer item now).2 = .ok .suppressed ∨
        (q.offer item now).2 = .ok .closed ∨ (∃ error, (q.offer item now).2 = .error error) →
      (q.offer item now).1 = q) := by
  intro q
  have hq : Accounted q := (accounted_ofBudgets budgets).calls cs
  have hp := hq.pcm
  have hm := hq.metadata
  refine ⟨hp, hm, ⟨?_, ?_, ?_, ?_, hq.reserve_le⟩, hq.pcm_le, hq.metadata_le, hq.task_le, ?_, ?_,
    ?_⟩
  · intro x hx
    have h₁ := weight_le_itemBytes hx OutputKind.isPcm
    have h₂ := weight_le_itemBytes hx OutputKind.isMetadata
    unfold owed at hp hm
    exact ⟨by omega, by omega⟩
  · intro x hx
    have h₁ := weight_le_flightBytes hx OutputKind.isPcm
    have h₂ := weight_le_flightBytes hx OutputKind.isMetadata
    unfold owed at hp hm
    exact ⟨by omega, by omega⟩
  · unfold owed at hp
    omega
  · have h := (itemBytes_filter q.unsent).2.1
    unfold owed at hm
    omega
  · intro utterance
    by_cases hu : utterance = 0
    · -- A partial without its utterance is not well formed.
      refine Nat.le_trans (Nat.le_of_eq (List.countP_eq_zero.2 fun x hx hkey => ?_)) (Nat.zero_le 1)
      simp only [Bool.and_eq_true, beq_iff_eq] at hkey
      have hv := hq.valid x hx
      unfold OutputItem.valid at hv
      split at hv <;> simp_all
    · exact hq.unique .partialText utterance (.inl rfl) hu
  · exact fun key hkey => hq.unique .control key (.inr rfl) hkey
  · intro item now hans
    rcases offer_cases q item now with ⟨hsame, -⟩ | ⟨-, hno, -⟩
    · exact hsame
    · rcases hans with h | h | h | ⟨error, h⟩ <;> simp [h, refuses] at hno

end BoundedOutputQueue

end Serving

end Tensorplate
