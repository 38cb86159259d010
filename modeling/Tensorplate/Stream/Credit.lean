import Tensorplate.Lib.Window
import Tensorplate.Sdk.Purse
import Tensorplate.Sdk.Sends
import Tensorplate.Session.OutputOrder
import Tensorplate.Stream.Notices

/-!
# The client stays within its credit

Every report of credit on its way to the client, and the one it read last,
covers the server: what it says was held, with all the client sent behind
the sequence it names, is at least what the server holds with all that is on
its way. So an input that `_fits` admits has room, and keeps it until it is
written, since the gate lets no other input in between.
-/

namespace Tensorplate

namespace Stream

open Serving Lib Window

/-- The sequence and the credit an event reports; a Ready names nothing. -/
def Notice.credit? : Notice → Option (ℕ × Sdk.InputCredit)
  | .ready credit => some (0, credit)
  | .accepted sequence credit => some (sequence, credit)
  | _ => none

variable {c c' : InputCredit} {away away' sent sent' : Parcels} {a : ℕ} {credit : Sdk.InputCredit}

/-- **A report of this credit's limits that covers it.** -/
structure Told (c : InputCredit) (away sent : Parcels) (a : ℕ) (credit : Sdk.InputCredit) :
    Prop where
  limit : credit.bytesLimit = c.budgets.inputCreditBytes
  places : credit.segmentsLimit = c.budgets.waitingItems
  covers : Covered c.heldBytes c.waitingSegments.length away sent a credit.bytesUsed
    credit.segmentsUsed

/-- **The credit has room** for what is on its way, and for so much more. -/
structure Room (c : InputCredit) (away : Parcels) (size places : ℕ) : Prop where
  bytes : c.heldBytes + total away + size ≤ c.budgets.inputCreditBytes
  segments : c.budgets.inputKind = .text →
    c.waitingSegments.length + away.length + places ≤ c.budgets.waitingItems

theorem Told.sends (h : Told c away sent a credit) {n size : ℕ} (hn : a < n) :
    Told c (away ++ [(n, size)]) (sent ++ [(n, size)]) a credit :=
  ⟨h.limit, h.places, h.covers.sends hn⟩

theorem Told.returns (h : Told c away sent a credit) (hb : c'.budgets = c.budgets)
    (hheld : c'.heldBytes ≤ c.heldBytes)
    (hwait : c'.waitingSegments.length ≤ c.waitingSegments.length) : Told c' away sent a credit :=
  ⟨by rw [hb]; exact h.limit, by rw [hb]; exact h.places, h.covers.returns hheld hwait⟩

theorem Room.returns {size places : ℕ} (h : Room c away size places) (hb : c'.budgets = c.budgets)
    (hheld : c'.heldBytes ≤ c.heldBytes)
    (hwait : c'.waitingSegments.length ≤ c.waitingSegments.length) : Room c' away size places := by
  have hbytes := h.bytes
  refine ⟨?_, fun hkind => ?_⟩
  · rw [hb]
    omega
  · rw [hb] at hkind ⊢
    have hsegments := h.segments hkind
    omega

section Charge

variable {n size : ℕ} (hfine : c.Fine) (hc : c.charge size = (c', .ok ()))
include hfine hc

theorem Told.charged (h : Told c ((n, size) :: away) sent a credit) : Told c' away sent a credit := by
  obtain ⟨hheld, hb, hwait⟩ := hfine.charged hc
  refine ⟨by rw [hb]; exact h.limit, by rw [hb]; exact h.places, h.covers.takes hheld ?_⟩
  rw [hwait]
  split
  · exact Nat.le_refl _
  · exact Nat.le_succ _

theorem Room.charged {more places : ℕ} (h : Room c ((n, size) :: away) more places) :
    Room c' away more places := by
  obtain ⟨hheld, hb, hwait⟩ := hfine.charged hc
  have hbytes := h.bytes
  rw [total_cons] at hbytes
  refine ⟨?_, fun hkind => ?_⟩
  · rw [hb, hheld]
    dsimp only at hbytes
    omega
  · rw [hb] at hkind ⊢
    have hsegments := h.segments hkind
    rw [List.length_cons] at hsegments
    rw [hwait, if_pos hkind]
    omega

end Charge

/-- **A report made now** covers. -/
theorem told_wireOf (hfine : c.Fine) (h : Rising (sent ++ away)) :
    Told c away (sent ++ away) (last sent) (wireOf c) ∧
      Told c away (sent ++ away) 0 (wireOf c) := by
  obtain ⟨husage, hwaiting⟩ := hfine.usage
  unfold wireOf
  rw [husage, hwaiting]
  exact ⟨⟨rfl, rfl, covered_now _ _ h⟩, ⟨rfl, rfl, covered_of_zero _ _ h⟩⟩

theorem told_of (hfine : c.Fine) (h : Rising (sent ++ away)) {event : Notice} {last' : ℕ}
    (hlast : last' = last sent) (hof : event.Of last' c)
    (hcredit : event.credit? = some (a, credit)) : Told c away (sent ++ away) a credit := by
  cases event with
  | ready credit' =>
    obtain ⟨rfl, rfl⟩ := Prod.mk.inj (Option.some.inj hcredit)
    rw [show credit' = wireOf c from hof]
    exact (told_wireOf hfine h).2
  | accepted sequence credit' =>
    obtain ⟨rfl, rfl⟩ := Prod.mk.inj (Option.some.inj hcredit)
    obtain ⟨rfl, rfl⟩ := hof
    rw [hlast]
    exact (told_wireOf hfine h).1
  | _ => exact absurd hcredit (by simp [Notice.credit?])

namespace Exchange

variable {x x' : Exchange}

/-- The events on their way to the client. -/
def pending (x : Exchange) : List Notice :=
  x.toClient.map Prod.snd ++ noticesIn x.slot.output.unsent

/-- The sequences the Accepted events name: those read, those on the wire,
and the one that waits. -/
def named (x : Exchange) : List ℕ :=
  (x.heard.map Prod.fst ++ x.toClient.filterMap fun p => p.2.named) ++
    namedIn x.slot.output.unsent

/-- **The accounts of the two sides agree.** -/
structure Balanced (x : Exchange) (c : InputCredit) : Prop where
  fine : c.Fine
  kind : c.budgets.inputKind = x.inputKind
  room : Room c x.uncharged 0 0
  pending : ∀ event ∈ x.pending, ∀ a credit, event.credit? = some (a, credit) →
    Told c x.uncharged x.written a credit
  client : x.client.session.credit.bytesLimit = 0 ∨
    Told c x.uncharged x.written x.client.session.accepted x.client.session.credit
  cleared : ∀ n b, (x.client.tasks n).cleared = some b → Room c x.uncharged b 1

/-- **The sequences agree.** -/
structure Lined (x : Exchange) : Prop where
  rising : Rising x.written
  sent : ∀ p ∈ x.written, p.1 ≤ x.client.session.sent
  sizes : ∀ p ∈ x.written, 0 < p.2
  unaccepted : x.client.session.unaccepted = after x.client.session.accepted x.written
  lastInput : x.client.session.lastInput = x.lastWritten
  taken : x.lastAcceptedSequence = last x.charged
  order : x.named.Pairwise (· ≤ ·)
  bound : ∀ a ∈ x.named, a ≤ x.lastAcceptedSequence
  own : x.client.session.accepted = 0 ∨ x.client.session.accepted ∈ x.heard.map Prod.fst
  heard : ∀ p ∈ x.heard, p.1 ≤ p.2

/-- **Before Ready** nothing is known of the credit, and no input is sent. -/
structure Unready (w : Sdk.World) (sent : Parcels) : Prop where
  written : sent = []
  accepted : w.session.accepted = 0
  credit : w.session.credit = ⟨0, 0, 0, 0⟩
  cleared : ∀ n, (w.tasks n).cleared = none

/-- What every step keeps, but for inputs lost since. -/
structure Even (x : Exchange) : Prop where
  client : Sdk.Ordered x.client
  paid : ∀ n b, Sdk.World.chargeOf (x.client.tasks n).work = some b → 0 < b
  unready : x.client.session.ready = none → Unready x.client x.written
  awaiting : x.awaitingOpen = true → x.client.session.ready = none ∧
    (∀ event ∈ x.pending, event.credit? = none) ∧ x.slot.entry = none
  filed : Filed x.slot.output.unsent
  lined : Lined x
  balanced : ∀ e, x.slot.entry = some e → Balanced x e.credit

/-- **What every step keeps.** -/
structure Kept (x : Exchange) : Prop where
  even : Even x
  deaf : x.lost ≠ [] → x.slot.Deaf

/-! ## Sequences -/

theorem Lined.last_le (h : Lined x) : x.lastAcceptedSequence ≤ x.lastWritten := by
  rw [h.taken]
  exact h.rising.last_le

theorem Lined.lastWritten_le (h : Lined x) : x.lastWritten ≤ x.client.session.sent := by
  by_cases hnil : x.written = []
  · show last x.written ≤ _
    rw [hnil]
    exact Nat.zero_le _
  · obtain ⟨p, hp, heq⟩ := last_mem hnil
    show last x.written ≤ _
    rw [← heq]
    exact h.sent p hp

theorem Lined.accepted_le (h : Lined x) : x.client.session.accepted ≤ x.lastAcceptedSequence := by
  rcases h.own with hzero | hmem
  · rw [hzero]
    exact Nat.zero_le _
  · exact h.bound _ (List.mem_append_left _ (List.mem_append_left _ hmem))

/-- The Accepted that waits is the one that waited, or names the last input
taken. -/
theorem named_settles {front l l' : List ℕ} {last last' : ℕ} (horder : (front ++ l).Pairwise (· ≤ ·))
    (hbound : ∀ a ∈ front ++ l, a ≤ last) (hle : last ≤ last')
    (hl : l'.Sublist l ∨ l' = [last']) :
    (front ++ l').Pairwise (· ≤ ·) ∧ ∀ a ∈ front ++ l', a ≤ last' := by
  rcases hl with hsub | rfl
  · have hall : (front ++ l').Sublist (front ++ l) := (List.Sublist.refl front).append hsub
    exact ⟨horder.sublist hall, fun a ha => Nat.le_trans (hbound a (hall.subset ha)) hle⟩
  · have hfront : ∀ a ∈ front, a ≤ last' := fun a ha =>
      Nat.le_trans (hbound a (List.mem_append_left _ ha)) hle
    refine ⟨List.pairwise_append.2 ⟨(List.pairwise_append.1 horder).1,
      List.pairwise_singleton _ _, fun a ha b hb => ?_⟩, fun a ha => ?_⟩
    · rw [List.mem_singleton.1 hb]
      exact hfront a ha
    · rcases List.mem_append.1 ha with ha | ha
      · exact hfront a ha
      · exact Nat.le_of_eq (List.mem_singleton.1 ha)

/-! ## The server -/

/-- **The accounts agree about the same inputs**, whatever else changed. -/
theorem Balanced.same (h : Balanced x c) (hclient : x'.client = x.client)
    (haway : x'.uncharged = x.uncharged) (hsent : x'.written = x.written)
    (hpending : ∀ event ∈ x'.pending, event ∈ x.pending ∨ ∀ a credit,
      event.credit? = some (a, credit) → Told c x.uncharged x.written a credit) :
    Balanced x' c := by
  refine ⟨h.fine, ?_, ?_, fun event he a credit hcredit => ?_, ?_, ?_⟩
  · unfold inputKind
    rw [hclient]
    exact h.kind
  · rw [haway]
    exact h.room
  · rw [haway, hsent]
    rcases hpending event he with hold | hnew
    · exact h.pending event hold a credit hcredit
    · exact hnew a credit hcredit
  · rw [haway, hsent, hclient]
    exact h.client
  · rw [haway, hclient]
    exact h.cleared

/-- A call of the manager that charges and returns nothing. -/
theorem Even.settles (h : Even x) (hs : Settles x x') : Even x' := by
  obtain ⟨slot, rfl⟩ : ∃ slot, x' = { x with slot := slot } := ⟨_, hs.same⟩
  obtain ⟨horder, hbound⟩ := named_settles h.lined.order h.lined.bound (Nat.le_refl _)
    (hs.named h.filed)
  refine ⟨h.client, h.paid, h.unready, fun hawait => ?_, hs.filed h.filed,
    { h.lined with order := horder, bound := hbound }, fun e' he' => ?_⟩
  · obtain ⟨hready, hnone, hentry⟩ := h.awaiting hawait
    refine ⟨hready, fun event hevent => ?_, ?_⟩
    · rcases List.mem_append.1 hevent with hwire | hqueue
      · exact hnone event (List.mem_append_left _ hwire)
      · rcases hs.news h.filed event hqueue with hold | ⟨e, he, -⟩
        · exact hnone event (List.mem_append_right _ hold)
        · rw [hentry] at he
          exact absurd he (by simp)
    · by_contra hsome
      obtain ⟨e', he'⟩ := Option.ne_none_iff_exists'.1 hsome
      obtain ⟨e, he, -⟩ := hs.entry e' he'
      rw [hentry] at he
      exact absurd he (by simp)
  · obtain ⟨e, he, hcredit⟩ := hs.entry e' he'
    rw [hcredit]
    have hb := h.balanced e he
    refine hb.same rfl rfl rfl fun event hevent => ?_
    rcases List.mem_append.1 hevent with hwire | hqueue
    · exact .inl (List.mem_append_left _ hwire)
    · rcases hs.news h.filed event hqueue with hold | ⟨e₀, he₀, hof⟩
      · exact .inl (List.mem_append_right _ hold)
      · rw [he] at he₀
        obtain rfl := Option.some.inj he₀
        exact .inr fun a credit hcredit => told_of hb.fine h.lined.rising h.lined.taken hof hcredit

theorem Kept.settles (h : Kept x) (hs : Settles x x') : Kept x' := by
  refine ⟨h.even.settles hs, fun hlost => hs.deaf (h.deaf ?_)⟩
  rw [hs.same] at hlost
  exact hlost

/-- The session of a call whose input was lost takes none again. -/
theorem Even.loses {slot : Slot Notice} (h : Even x) (hp : x.slot.Plain slot) (hd : slot.Deaf) :
    Kept (x.shows slot) := by
  refine ⟨h.settles (settles_shows hp), fun _ e he => ?_⟩
  rw [shows_entry hp] at he
  exact hd e he

/-- Credit returns, and is reported. -/
theorem Kept.returned {slot : Slot Notice} (h : Kept x) (hr : x.slot.Returned slot) :
    Kept (x.shows slot) := by
  obtain ⟨e, e', t, he, he', hmachine, hcredit, hshown, hevent, hreports⟩ := hr.entry
  have hb := h.even.balanced e he
  obtain ⟨hfine, hheld, hbudgets, hwait⟩ := hcredit hb.fine
  rw [shows_eq hshown]
  have hnot : ¬t.TakesInput := fun htakes => by
    have hdata := htakes.1
    rw [hevent] at hdata
    exact absurd hdata (by simp)
  have hn := noted_onTransition { x with slot := slot } hreports hnot
  obtain ⟨slot', heq⟩ : ∃ slot', [t].foldl onTransition { x with slot := slot } =
      { x with slot := slot' } := ⟨_, hn.same⟩
  have hout : slot.output.unsent = x.slot.output.unsent := by rw [hr.output]
  change Noted e'.credit { x with slot := slot }
    ([t].foldl onTransition { x with slot := slot }) at hn
  rw [heq] at hn ⊢
  have hfiled : Filed slot.output.unsent := by
    rw [hout]
    exact h.even.filed
  have hnews := hn.news hfiled
  have hnamed := hn.named hfiled
  dsimp only at hnews hnamed
  rw [hout] at hnews hnamed
  obtain ⟨horder, hbound⟩ := named_settles h.even.lined.order h.even.lined.bound (Nat.le_refl _)
    hnamed
  have hentry : slot'.entry = some e' := hn.entry.trans he'
  refine ⟨⟨h.even.client, h.even.paid, h.even.unready, fun hawait => ?_, hn.filed hfiled,
    { h.even.lined with order := horder, bound := hbound }, fun last hlast => ?_⟩, fun hlost => ?_⟩
  · have hnone := (h.even.awaiting hawait).2.2
    rw [he] at hnone
    exact absurd hnone (by simp)
  · change slot'.entry = some last at hlast
    rw [hentry] at hlast
    obtain rfl := Option.some.inj hlast
    refine ⟨hfine, by rw [hbudgets]; exact hb.kind, hb.room.returns hbudgets hheld hwait,
      fun event hevent a credit hc => ?_, hb.client.imp id fun ht => ht.returns hbudgets hheld hwait,
      fun n b hcleared => (hb.cleared n b hcleared).returns hbudgets hheld hwait⟩
    rcases List.mem_append.1 hevent with hwire | hqueue
    · exact (hb.pending event (List.mem_append_left _ hwire) a credit hc).returns hbudgets hheld
        hwait
    · rcases hnews event hqueue with hold | hof
      · exact (hb.pending event (List.mem_append_right _ hold) a credit hc).returns hbudgets hheld
          hwait
      · exact told_of hfine h.even.lined.rising h.even.lined.taken hof hc
  · intro last hlast
    change slot'.entry = some last at hlast
    rw [hentry] at hlast
    obtain rfl := Option.some.inj hlast
    rw [hmachine]
    exact h.deaf hlost e he

/-- **A manager call** that is not the client's input. -/
theorem Kept.manages (h : Kept x) (call : ManagerCall) : Kept (x.manages call) := by
  have hplain : ∀ {slot : Slot Notice}, x.slot.Plain slot → Kept (x.shows slot) :=
    fun hp => h.settles (settles_shows hp)
  have hupdate : ∀ {slot : Slot Notice}, x.slot.Returned slot ∨ x.slot.Plain slot →
      Kept (x.shows slot) := by
    rintro slot (hr | hp)
    · exact h.returned hr
    · exact hplain hp
  cases call with
  | apply event cause => exact hplain (Slot.plain_apply _ event cause)
  | releaseAudioInput chunks bytes =>
    exact hupdate (Slot.updateCredit_returns (Slot.orderly_releaseAudio chunks bytes)
      (.releaseAudio chunks bytes) (fun _ => rfl) nofun x.slot)
  | startTextSegment =>
    exact hupdate (Slot.updateCredit_returns Slot.orderly_startSegment
      .startSegment (fun _ => rfl) nofun x.slot)
  | finishTextSegment =>
    exact hupdate (Slot.updateCredit_returns Slot.orderly_finishSegment
      .finishSegment (fun _ => rfl) nofun x.slot)
  | checkGeneration generation => exact hplain (Slot.plain_checkGeneration _ generation)
  | drain cause => exact hplain (Slot.plain_drain _ cause)
  | sweep => exact hplain (Slot.plain_sweep _)

/-- The queue is worked on by others than the sink. -/
theorem Even.queue (h : Even x) {slot : Slot Notice} (hentry : slot.entry = x.slot.entry)
    (hfiled : Filed slot.output.unsent)
    (hnews : ∀ event ∈ noticesIn slot.output.unsent, event ∈ noticesIn x.slot.output.unsent ∨
      event.credit? = none)
    (hnamed : (namedIn slot.output.unsent).Sublist (namedIn x.slot.output.unsent)) :
    Even { x with slot := slot } := by
  obtain ⟨horder, hbound⟩ := named_settles h.lined.order h.lined.bound (Nat.le_refl _)
    (.inl hnamed)
  refine ⟨h.client, h.paid, h.unready, fun hawait => ?_, hfiled,
    { h.lined with order := horder, bound := hbound }, fun e he => ?_⟩
  · obtain ⟨hready, hnone, hentry₀⟩ := h.awaiting hawait
    refine ⟨hready, fun event hevent => ?_, hentry.trans hentry₀⟩
    rcases List.mem_append.1 hevent with hwire | hqueue
    · exact hnone event (List.mem_append_left _ hwire)
    · rcases hnews event hqueue with hold | hnew
      · exact hnone event (List.mem_append_right _ hold)
      · exact hnew
  · refine (h.balanced e (hentry ▸ he)).same rfl rfl rfl fun event hevent => ?_
    rcases List.mem_append.1 hevent with hwire | hqueue
    · exact .inl (List.mem_append_left _ hwire)
    · rcases hnews event hqueue with hold | hnone
      · exact .inl (List.mem_append_right _ hold)
      · refine .inr fun a credit hcredit => ?_
        rw [hnone] at hcredit
        exact absurd hcredit (by simp)

theorem Kept.offers {kind : OutputKind} {bytes replaceKey : ℕ} (h : Kept x)
    (hs : x.offers kind bytes replaceKey = some x') : Kept x' := by
  unfold Exchange.offers at hs
  split at hs
  · exact absurd hs (by simp)
  rename_i hkind
  obtain rfl := Option.some.inj hs
  have htask : kind.taskOutput = true := by simpa using hkind
  obtain ⟨hfiled, hmem, hnamed⟩ := h.even.filed.offer
    (keyed_task bytes replaceKey htask) (x.slot.clock x.slot.reads)
  refine ⟨h.even.queue rfl hfiled (fun event hevent => ?_) ?_, h.deaf⟩
  · obtain ⟨i, hi, hbody⟩ := List.mem_filterMap.1 hevent
    rcases hmem i hi with hold | rfl
    · exact .inl (List.mem_filterMap.2 ⟨i, hold, hbody⟩)
    · obtain rfl := Option.some.inj hbody
      exact .inr rfl
  · rcases hnamed with heq | heq
    · exact heq ▸ List.Sublist.refl _
    · exact heq ▸ List.nil_sublist _

/-- Events move on without a change of what is on its way. -/
theorem Kept.moves (h : Kept x) {slot : Slot Notice} (toClient : List (ℕ × Notice))
    (hentry : slot.entry = x.slot.entry) (hfiled : Filed slot.output.unsent)
    (hpending : pending { x with slot := slot, toClient := toClient } = x.pending)
    (hnamed : named { x with slot := slot, toClient := toClient } = x.named) :
    Kept { x with slot := slot, toClient := toClient } := by
  have hlined : Lined { x with slot := slot, toClient := toClient } :=
    { h.even.lined with
      order := by rw [hnamed]; exact h.even.lined.order
      bound := by rw [hnamed]; exact h.even.lined.bound }
  refine ⟨⟨h.even.client, h.even.paid, h.even.unready, fun hawait => ?_, hfiled, hlined,
    fun e he => ?_⟩, fun hlost e he => h.deaf hlost e (hentry ▸ he)⟩
  · obtain ⟨hready, hnone, hentry₀⟩ := h.even.awaiting hawait
    refine ⟨hready, ?_, hentry.trans hentry₀⟩
    rw [hpending]
    exact hnone
  · refine (h.even.balanced e (hentry ▸ he)).same rfl rfl rfl fun event hevent => ?_
    rw [hpending] at hevent
    exact .inl hevent

/-- Nothing on its way is touched. -/
theorem Kept.idle (h : Kept x) {slot : Slot Notice} (hentry : slot.entry = x.slot.entry)
    (hunsent : slot.output.unsent = x.slot.output.unsent) : Kept { x with slot := slot } := by
  refine h.moves x.toClient hentry ?_ ?_ ?_
  · rw [hunsent]
    exact h.even.filed
  · unfold pending
    rw [hunsent]
  · unfold named
    rw [hunsent]

theorem Kept.confirms (h : Kept x) (sequence : ℕ) : Kept (x.confirms sequence) := by
  have hunsent : (x.slot.output.delivered sequence (x.slot.clock x.slot.reads)).1.unsent =
      x.slot.output.unsent := by
    rcases BoundedOutputQueue.delivered_cases x.slot.output sequence (x.slot.clock x.slot.reads)
      with ⟨-, heq⟩ | ⟨-, done, rest, pcm, metadata, -, heq⟩
    · rw [heq]
    · rw [heq]
  exact h.idle rfl hunsent

/-- The next event is taken for the wire: it stays on its way. -/
theorem Kept.takes (h : Kept x) (hs : x.takes = some x') : Kept x' := by
  unfold Exchange.takes BoundedOutputQueue.take at hs
  rcases hq : x.slot.output.unsent with - | ⟨item, rest⟩
  · rw [hq] at hs
    exact absurd hs (by simp)
  rw [hq] at hs
  obtain rfl := Option.some.inj hs
  have hfiled := h.even.filed
  rw [hq] at hfiled
  refine h.moves _ rfl (hfiled.sublist (List.sublist_cons_self item rest)) ?_ ?_
  · unfold pending noticesIn
    rw [hq]
    rcases hbody : item.body with - | event
    · simp [hbody]
    · simp [hbody]
  · unfold named namedIn noticesIn
    rw [hq]
    rcases hbody : item.body with - | event
    · simp [hbody]
    · rcases hnamed : event.named with - | sequence
      · simp [hbody, hnamed]
      · simp [hbody, hnamed]

/-! ## The client's events at the server -/

theorem inputsOf_cons (e : Sent) (rest : List Sent) : inputsOf (e :: rest) =
    (if e.body.isCharged then [(e.sequence, e.bytes)] else []) ++ inputsOf rest := by
  unfold inputsOf
  rw [List.filterMap_cons]
  rcases hbody : e.body with - | - | - | - | - | -
  · rfl
  · rfl
  · rfl
  · rfl
  · rfl
  · rfl

/-- The channel, and who has which input, change; the inputs do not. -/
theorem Even.regroup (h : Even x) {toServer : List Sent} {lost : Parcels} {awaitingOpen listens : Bool}
    {offered : ℕ} (hawait : awaitingOpen = true → x.awaitingOpen = true)
    (haway : lost ++ inputsOf toServer = x.uncharged) :
    Even { x with
      toServer := toServer, lost := lost, awaitingOpen := awaitingOpen, listens := listens
      offered := offered } := by
  have hwritten : written { x with
      toServer := toServer, lost := lost, awaitingOpen := awaitingOpen, listens := listens
      offered := offered } = x.written := congrArg (x.charged ++ ·) haway
  have hlast : lastWritten { x with
      toServer := toServer, lost := lost, awaitingOpen := awaitingOpen, listens := listens
      offered := offered } = x.lastWritten := congrArg last hwritten
  refine ⟨h.client, h.paid, fun hready => ?_, fun ha => h.awaiting (hawait ha), h.filed, ?_,
    fun e he => ?_⟩
  · exact { h.unready hready with written := hwritten.trans (h.unready hready).written }
  · exact { h.lined with
      rising := by rw [hwritten]; exact h.lined.rising
      sent := by rw [hwritten]; exact h.lined.sent
      sizes := by rw [hwritten]; exact h.lined.sizes
      unaccepted := by rw [hwritten]; exact h.lined.unaccepted
      lastInput := by rw [hlast]; exact h.lined.lastInput }
  · exact (h.balanced e he).same rfl haway hwritten fun event hevent => .inl hevent

theorem Kept.hears (h : Kept x) (listens : Bool) : Kept { x with listens := listens } :=
  ⟨h.even.regroup id rfl, h.deaf⟩

/-- **An input is taken**: it is charged, and the Accepted that names it is
offered. -/
theorem Kept.charged {e : Sent} {rest : List Sent} {t : ManagedSessionTransition}
    {slot : Slot Notice} (h : Kept x) (hnext : x.toServer = e :: rest)
    (hinput : e.body.isCharged = true) (hc : x.slot.Charged e.bytes t slot) :
    Kept ({ x with
      toServer := rest, offered := e.sequence
      charged := x.charged ++ [(e.sequence, e.bytes)] }.shows slot) := by
  obtain ⟨entry, credit, entry', hentry, hcharge, hentry', hcredit, hreports⟩ := hc.entry
  -- Nothing was lost before, or it would not be taken.
  have hlost : x.lost = [] := by
    by_contra hne
    exact hc.heard (h.deaf hne)
  have haway : x.uncharged = (e.sequence, e.bytes) :: inputsOf rest := by
    unfold uncharged
    rw [hlost, hnext, inputsOf_cons, if_pos hinput]
    rfl
  have hwritten : (x.charged ++ [(e.sequence, e.bytes)]) ++ (x.lost ++ inputsOf rest) = x.written := by
    unfold written
    rw [haway, hlost, List.append_assoc]
    rfl
  have hb := h.even.balanced entry hentry
  have hrising : Rising ((x.charged ++ [(e.sequence, e.bytes)]) ++ inputsOf rest) := by
    have hr := h.even.lined.rising
    rw [← hwritten, hlost] at hr
    exact hr
  have hlast : x.lastAcceptedSequence ≤ e.sequence := by
    rw [h.even.lined.taken]
    have hr := h.even.lined.rising
    unfold written at hr
    rw [haway] at hr
    exact Nat.le_of_lt (hr.last_lt List.mem_cons_self)
  rw [shows_eq (x := { x with
    toServer := rest, offered := e.sequence
    charged := x.charged ++ [(e.sequence, e.bytes)] }) hc.shown]
  have hn := noted_tells hreports { x with
    toServer := rest, offered := e.sequence, charged := x.charged ++ [(e.sequence, e.bytes)]
    slot := slot, lastAcceptedSequence := e.sequence }
  have hshow : [t].foldl onTransition { x with
      toServer := rest, offered := e.sequence, charged := x.charged ++ [(e.sequence, e.bytes)]
      slot := slot } = if t.event.isSome then t.effects.foldl (onEffect t) { x with
        toServer := rest, offered := e.sequence, charged := x.charged ++ [(e.sequence, e.bytes)]
        slot := slot, lastAcceptedSequence := e.sequence }
      else if t.state = .active ∨ t.state = .finalizing then offerAccepted { x with
        toServer := rest, offered := e.sequence, charged := x.charged ++ [(e.sequence, e.bytes)]
        slot := slot, lastAcceptedSequence := e.sequence } t
      else { x with
        toServer := rest, offered := e.sequence, charged := x.charged ++ [(e.sequence, e.bytes)]
        slot := slot, lastAcceptedSequence := e.sequence } := by
    have htakes : t.event = some .data ∧ .acceptInput ∈ t.effects :=
      ⟨hc.tells, by rw [hc.effects]; exact List.mem_singleton_self _⟩
    show onTransition _ t = _
    unfold onTransition
    dsimp only
    rw [if_pos htakes]
  rw [hshow]
  obtain ⟨slot', heq⟩ := show ∃ slot', _ = { x with
    toServer := rest, offered := e.sequence, charged := x.charged ++ [(e.sequence, e.bytes)]
    slot := slot', lastAcceptedSequence := e.sequence } from ⟨_, hn.same⟩
  rw [heq] at hn ⊢
  have hfiled : Filed slot.output.unsent := by
    rw [hc.output]
    exact h.even.filed
  have hnews := hn.news hfiled
  have hnamed := hn.named hfiled
  dsimp only at hnews hnamed
  rw [hc.output] at hnews hnamed
  obtain ⟨horder, hbound⟩ := named_settles h.even.lined.order h.even.lined.bound hlast hnamed
  have hentry₁ : slot'.entry = some entry' := hn.entry.trans hentry'
  have hfine : credit.Fine := by
    have hnext := hb.fine.call (.charge e.bytes)
    rw [show entry.credit.call (.charge e.bytes) = entry.credit.charge e.bytes from rfl,
      hcharge] at hnext
    exact hnext
  have htold : ∀ {a : ℕ} {reported : Sdk.InputCredit}, Told entry.credit x.uncharged x.written a
      reported → Told credit (x.lost ++ inputsOf rest)
        ((x.charged ++ [(e.sequence, e.bytes)]) ++ (x.lost ++ inputsOf rest)) a reported := by
    intro a reported ht
    rw [hwritten, hlost]
    rw [haway] at ht
    exact ht.charged hb.fine hcharge
  have hroom : ∀ {size places : ℕ}, Room entry.credit x.uncharged size places →
      Room credit (x.lost ++ inputsOf rest) size places := by
    intro size places hr
    rw [haway] at hr
    rw [hlost]
    exact hr.charged hb.fine hcharge
  refine ⟨⟨h.even.client, h.even.paid, fun hready => ?_, fun hawait => ?_, hn.filed hfiled, ?_,
    fun last hlast => ?_⟩, fun hne => absurd hlost hne⟩
  · have hunready := h.even.unready hready
    exact { hunready with written := hwritten.trans hunready.written }
  · have hnone := (h.even.awaiting hawait).2.2
    rw [hentry] at hnone
    exact absurd hnone (by simp)
  · have hl := h.even.lined
    have hsame : written { x with
      toServer := rest, offered := e.sequence, charged := x.charged ++ [(e.sequence, e.bytes)]
      slot := slot', lastAcceptedSequence := e.sequence } = x.written := hwritten
    refine ⟨?_, ?_, ?_, ?_, hl.lastInput.trans (congrArg last hwritten).symm,
      (last_concat x.charged (e.sequence, e.bytes)).symm, horder, hbound, hl.own, hl.heard⟩
    · rw [hsame]
      exact hl.rising
    · rw [hsame]
      exact hl.sent
    · rw [hsame]
      exact hl.sizes
    · rw [hsame]
      exact hl.unaccepted
  · change slot'.entry = some last at hlast
    rw [hentry₁] at hlast
    obtain rfl := Option.some.inj hlast
    rw [hcredit]
    have hkind : credit.budgets = entry.credit.budgets := (hb.fine.charged hcharge).2.1
    refine ⟨hfine, by rw [hkind]; exact hb.kind, hroom hb.room, fun event hevent a reported hr => ?_,
      hb.client.imp id htold, fun n b hcleared => hroom (hb.cleared n b hcleared)⟩
    rcases List.mem_append.1 hevent with hwire | hqueue
    · exact htold (hb.pending event (List.mem_append_left _ hwire) a reported hr)
    · rcases hnews event hqueue with hold | hof
      · exact htold (hb.pending event (List.mem_append_right _ hold) a reported hr)
      · refine told_of hfine ?_ (last_concat x.charged (e.sequence, e.bytes)).symm hof hr
        show Rising ((x.charged ++ [(e.sequence, e.bytes)]) ++ (x.lost ++ inputsOf rest))
        rw [hlost]
        exact hrising

/-- **`audio` and `text_segment`**: the input is taken, or no input is taken
again. -/
theorem Kept.input {e : Sent} {rest : List Sent} (h : Kept x) (hnext : x.toServer = e :: rest)
    (hinput : e.body.isCharged = true) (refusal : Option Error) :
    Kept ({ x with toServer := rest }.input e refusal) := by
  have haway : (x.lost ++ [(e.sequence, e.bytes)]) ++ inputsOf rest = x.uncharged := by
    unfold uncharged
    rw [hnext, inputsOf_cons, if_pos hinput, List.append_assoc]
  rcases refusal with - | cause
  · have hlost : ∀ {slot : Slot Notice}, x.slot.Plain slot → slot.Deaf →
        Kept ((loses { x with toServer := rest, offered := e.sequence } e).shows slot) :=
      fun hp hd => (h.even.regroup id haway).loses hp hd
    unfold Exchange.input
    dsimp only
    rcases Slot.acceptInput_cases x.slot e.bytes with ⟨t, hok, hc⟩ | ⟨hp, hd, hnot⟩
    · rcases haccept : x.slot.acceptInput e.bytes with ⟨slot, answer⟩
      rw [haccept] at hok hc
      obtain rfl : answer = .ok t := hok
      have hmem : .acceptInput ∈ t.effects := by
        rw [hc.effects]
        exact List.mem_singleton_self _
      dsimp only
      rw [if_pos hmem]
      exact h.charged hnext hinput hc
    · rcases haccept : x.slot.acceptInput e.bytes with ⟨slot, refused | t⟩
      · rw [haccept] at hp hd
        exact (hlost hp hd).hears false
      · rw [haccept] at hp hd hnot
        dsimp only
        rw [if_neg (hnot t rfl)]
        exact hlost hp hd
  · have hover := Slot.over_of_apply_ending (s := x.slot) (show Slot.ending .fail = true from rfl) rfl cause
    exact ((h.even.regroup id haway).loses (Slot.plain_apply x.slot .fail (some cause))
      hover.deaf).hears false

theorem Kept.fails (h : Kept x) (cause : Error) : Kept (x.fails cause) :=
  (h.settles (settles_shows (Slot.plain_apply x.slot .fail (some cause)))).hears false

theorem Kept.applies (h : Kept x) (event : LogicalSessionEvent) : Kept (x.applies event) :=
  (h.settles (settles_shows (Slot.plain_apply x.slot event none))).hears _

/-- **The server handles the client's next event.** -/
theorem Kept.handles {refusal : Option Error} (h : Kept x) (hs : x.handles refusal = some x') :
    Kept x' := by
  unfold Exchange.handles at hs
  split at hs
  · exact absurd hs (by simp)
  rename_i e rest hnext
  split at hs
  · exact absurd hs (by simp)
  obtain rfl := Option.some.inj hs
  have hother : e.body.isCharged = false → Kept { x with toServer := rest } := by
    intro hbody
    refine ⟨h.even.regroup id ?_, h.deaf⟩
    unfold uncharged
    rw [hnext, inputsOf_cons, hbody]
    rfl
  split
  · rename_i hbody
    exact h.input hnext (by rw [hbody]; rfl) refusal
  · rename_i hbody
    exact h.input hnext (by rw [hbody]; rfl) refusal
  · rename_i hnotAudio hnotText
    have hk := hother (by
      cases hbody : e.body with
      | audio sampleOffset samples short => exact absurd hbody (hnotAudio _ _ _)
      | textSegment segmentId => exact absurd hbody (hnotText _)
      | _ => rfl)
    split
    · exact hk.fails _
    · split
      · exact hk.applies .finalize
      · exact hk.applies .ping
      · exact hk.applies .cancel
      · exact hk.fails _

/-! ## The open -/

/-- Nothing was written before the open was answered. -/
theorem Even.blank (h : Even x) (hawait : x.awaitingOpen = true) : x.charged = [] ∧ x.lost = [] ∧
    inputsOf x.toServer = [] := by
  have hnil := (h.unready (h.awaiting hawait).1).written
  unfold written uncharged at hnil
  simpa using hnil

theorem inputsOf_rest {e : Sent} {rest : List Sent} (h : inputsOf (e :: rest) = []) :
    inputsOf rest = [] := by
  rw [inputsOf_cons] at h
  exact (List.append_eq_nil_iff.1 h).2

/-- **A session is made**: all its credit is free, and the client knows of
none. -/
theorem Kept.made (h : Kept x) (hawait : x.awaitingOpen = true) {rest : List Sent} {e : Sent}
    (hnext : x.toServer = e :: rest) {entry : Entry} {budgets : SessionBudgets} (slot : Slot Notice)
    (listens : Bool) (hentry : slot.entry = some entry) (hcredit : entry.credit = { budgets := budgets })
    (hkind : budgets.inputKind = x.inputKind) (hout : slot.output.unsent = []) :
    Kept { x with toServer := rest, awaitingOpen := false, listens := listens, slot := slot } := by
  obtain ⟨hcharged, hlost, hinputs⟩ := h.even.blank hawait
  obtain ⟨hready, hnone, -⟩ := h.even.awaiting hawait
  have hun := h.even.unready hready
  rw [hnext] at hinputs
  have haway : uncharged { x with
      toServer := rest, awaitingOpen := false, listens := listens, slot := slot } = [] := by
    show x.lost ++ inputsOf rest = []
    rw [hlost, inputsOf_rest hinputs]
    rfl
  have hwritten : written { x with
      toServer := rest, awaitingOpen := false, listens := listens, slot := slot } = x.written := by
    rw [hun.written]
    show x.charged ++ uncharged _ = []
    rw [haway, hcharged]
    rfl
  have hqueue : (namedIn slot.output.unsent).Sublist (namedIn x.slot.output.unsent) := by
    rw [hout]
    exact List.nil_sublist _
  obtain ⟨horder, hbound⟩ := named_settles h.even.lined.order h.even.lined.bound (Nat.le_refl _)
    (.inl hqueue)
  have hl := h.even.lined
  refine ⟨⟨h.even.client, h.even.paid, fun _ => { hun with written := hwritten.trans hun.written },
    nofun, by rw [hout]; exact filed_nil, ?_, fun e he => ?_⟩, fun hne => absurd hlost hne⟩
  · exact { hl with
      rising := by rw [hwritten]; exact hl.rising
      sent := by rw [hwritten]; exact hl.sent
      sizes := by rw [hwritten]; exact hl.sizes
      unaccepted := by rw [hwritten]; exact hl.unaccepted
      lastInput := hl.lastInput.trans (congrArg last hwritten).symm
      order := horder
      bound := hbound }
  · change slot.entry = some e at he
    rw [hentry] at he
    obtain rfl := Option.some.inj he
    rw [hcredit]
    refine ⟨InputCredit.fine_opened budgets, hkind, ?_, fun event hevent a credit hc => ?_,
      .inl (by rw [hun.credit]), fun n b hb => ?_⟩
    · rw [haway]
      exact ⟨Nat.zero_le _, fun _ => Nat.zero_le _⟩
    · rcases List.mem_append.1 hevent with hwire | hqueue
      · rw [hnone event (List.mem_append_left _ hwire)] at hc
        exact absurd hc (by simp)
      · rw [hout] at hqueue
        exact absurd hqueue List.not_mem_nil
    · rw [hun.cleared n] at hb
      exact absurd hb (by simp)

theorem Kept.opens {key generation : ℕ} {limits : SessionLimits} {budgets : SessionBudgets}
    {initialized : Except Error Unit} (h : Kept x)
    (hs : x.opens key generation limits budgets initialized = some x') : Kept x' := by
  unfold Exchange.opens at hs
  split at hs
  swap
  · exact absurd hs (by simp)
  rename_i rest hnext
  split_ifs at hs with hlistens hkind
  have hawait : x.awaitingOpen = true := by
    by_contra hnot
    exact hlistens (by simp [hnot])
  dsimp only [Slot.now] at hs
  generalize hadmission : Slot.admission _ _ initialized = admitted at hs
  obtain ⟨slot, answer⟩ := admitted
  obtain rfl := Option.some.inj hs
  obtain rfl := congrArg Prod.fst hadmission
  have hmade := h.made hawait hnext { x.slot with
    reads := x.slot.reads + 1
    key := key
    entry := some ⟨⟨.opening, generation⟩, SessionTimers.start limits budgets.inputKind
      (x.slot.clock x.slot.reads), { budgets := budgets }, none⟩
    output := BoundedOutputQueue.ofBudgets budgets } answer.toOption.isSome rfl rfl
    (not_not.1 hkind) rfl
  exact hmade.settles (settles_shows (Slot.plain_admission _ initialized rfl rfl))

theorem Kept.refusesOpen (h : Kept x) (hs : x.refusesOpen = some x') : Kept x' := by
  unfold Exchange.refusesOpen at hs
  split at hs
  swap
  · exact absurd hs (by simp)
  rename_i e rest hnext
  split_ifs at hs with hlistens
  obtain rfl := Option.some.inj hs
  have hawait : x.awaitingOpen = true := by
    by_contra hnot
    exact hlistens (by simp [hnot])
  obtain ⟨-, hlost, hinputs⟩ := h.even.blank hawait
  refine ⟨h.even.regroup nofun ?_, h.deaf⟩
  unfold uncharged
  rw [hinputs, inputsOf_rest (hnext ▸ hinputs)]

end Exchange

end Stream

end Tensorplate
