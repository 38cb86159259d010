import Mathlib.Data.List.Induction
import Mathlib.Data.List.Chain
import Tensorplate.Buffer.Model.BufferManager

/-!
# What the buffer plane accounts for

The bytes in use are those of the buffers handed out and not taken back,
whatever handles a caller makes up; they stay within the capacity. The
changes of the pressure level are recorded once each, in order: every one
was drained, is waiting to be, or was overwritten as the oldest waiting.
-/

namespace Tensorplate

namespace Buffer

open Lib

namespace BufferManager

variable {m m' : BufferManager}

/-- The buffers in use. -/
def live (m : BufferManager) : List Entry := m.entries.filter fun e => !e.released

/-- The events that wait to be drained, oldest first. -/
def waiting (m : BufferManager) : List BufferPressureEvent := m.pressureEvents.entries {}

/-- The pressure level of the bytes in use. -/
def level (m : BufferManager) : MemoryPressure := m.config.pressureOf m.inUseBytes

/-- **What holds of a manager between calls.** -/
structure Sound (m : BufferManager) : Prop where
  ids : ∀ e ∈ m.entries, 0 < e.id ∧ e.id < m.nextId
  next : 0 < m.nextId
  nodup : (m.entries.map Entry.id).Nodup
  inUse : m.inUseBytes = (m.live.map Entry.sizeBytes).sum
  active : m.activeCount = m.live.length
  within : m.inUseBytes ≤ m.config.capacityBytes
  pressure : m.lastPressure = m.level
  ring : m.pressureEvents.Sound

/-! ## Recording -/

/-- The change of the level between two states, as an event. -/
def changeTo (m m' : BufferManager) : List BufferPressureEvent :=
  if m.level = m'.level then [] else [m'.eventOf m.level m'.level]

/-- **What a call does to the events**: nothing, one more, one more over the
oldest, or a drain. -/
inductive EventMove (m m' : BufferManager) : List BufferPressureEvent → Prop
  | still (hw : m'.waiting = m.waiting) (hd : m'.pressureEventsDropped = m.pressureEventsDropped)
      (hc : changeTo m m' = []) : EventMove m m' []
  | record {e : BufferPressureEvent} (hw : m'.waiting = m.waiting ++ [e])
      (hd : m'.pressureEventsDropped = m.pressureEventsDropped)
      (hc : changeTo m m' = [e]) : EventMove m m' []
  | overwrite {e oldest : BufferPressureEvent} {rest : List BufferPressureEvent}
      (hold : m.waiting = oldest :: rest) (hw : m'.waiting = rest ++ [e])
      (hd : m'.pressureEventsDropped = m.pressureEventsDropped + 1)
      (hc : changeTo m m' = [e]) : EventMove m m' []
  | drain (hw : m'.waiting = []) (hd : m'.pressureEventsDropped = m.pressureEventsDropped)
      (hc : changeTo m m' = []) : EventMove m m' m.waiting

theorem maybeRecord_of_eq (h : m.lastPressure = m.level) : m.maybeRecordPressureEvent = m := by
  unfold maybeRecordPressureEvent
  exact if_pos h.symm

/-- Recording changes only the events and the level last seen. -/
theorem maybeRecord_frame (m : BufferManager) :
    ∃ events dropped, m.maybeRecordPressureEvent =
      { m with
        lastPressure := m.level, pressureEvents := events, pressureEventsDropped := dropped } := by
  unfold maybeRecordPressureEvent
  dsimp only
  split
  · next h => exact ⟨m.pressureEvents, m.pressureEventsDropped, by rw [level, h]⟩
  · exact ⟨_, _, rfl⟩

/-- **The level is recorded where it changed**: from a state whose level was
the one last seen, through one with the same events. -/
theorem eventMove_maybeRecord {b : BufferManager} (hbefore : b.lastPressure = b.level)
    (hlast : m.lastPressure = b.lastPressure)
    (hevents : m.pressureEvents = b.pressureEvents)
    (hdropped : m.pressureEventsDropped = b.pressureEventsDropped)
    (hring : m.pressureEvents.Sound) :
    EventMove b m.maybeRecordPressureEvent [] ∧
      m.maybeRecordPressureEvent.pressureEvents.Sound := by
  have hseen : m.lastPressure = b.level := hlast.trans hbefore
  have hwaiting : m.waiting = b.waiting := by
    unfold waiting
    rw [hevents]
  unfold maybeRecordPressureEvent
  dsimp only
  by_cases hsame : m.config.pressureOf m.inUseBytes = m.lastPressure
  · rw [if_pos hsame]
    refine ⟨.still hwaiting hdropped ?_, hring⟩
    exact if_pos (hseen.symm.trans hsame.symm)
  rw [if_neg hsame]
  have hchange : changeTo b (({ m with lastPressure := m.level }).recordPressureEvent
      m.lastPressure m.level) = [m.eventOf m.lastPressure m.level] := by
    have hne : b.level ≠ m.level := fun h => hsame (h.symm.trans hseen.symm)
    refine (if_neg hne).trans ?_
    rw [← hseen]
    rfl
  refine ⟨?_, hring.push⟩
  by_cases hroom : m.pressureEvents.count < m.pressureEvents.cells.length
  · refine .record (e := m.eventOf m.lastPressure m.level) ?_ ?_ hchange
    · rw [← hwaiting]
      exact RingQueue.entries_push_of_lt hring hroom
    · rw [← hdropped]
      exact if_pos hroom
  · have hcount := hring.count
    have hfirst := hring.first
    have hfull : m.pressureEvents.count = m.pressureEvents.cells.length := by omega
    rcases hold : m.waiting with _ | ⟨oldest, rest⟩
    · have hlen := congrArg List.length hold
      unfold waiting at hlen
      rw [RingQueue.length_entries, List.length_nil] at hlen
      omega
    refine .overwrite (e := m.eventOf m.lastPressure m.level) (hwaiting.symm.trans hold) ?_ ?_
      hchange
    · have htail : m.waiting.tail = rest := by rw [hold, List.tail_cons]
      rw [← htail]
      exact RingQueue.entries_push_of_full hring hfull
    · rw [← hdropped]
      exact if_neg hroom

/-! ## The calls -/

/-- The manager with one more buffer, before the level is looked at. -/
def granted (m : BufferManager) (sizeBytes alignment : ℕ) : BufferManager :=
  { m with
    nextId := m.nextId + 1
    entries := m.entries ++ [⟨m.nextId, sizeBytes, alignment, false⟩]
    inUseBytes := m.inUseBytes + sizeBytes
    activeCount := m.activeCount + 1
    highWaterBytes := if m.inUseBytes + sizeBytes > m.highWaterBytes then m.inUseBytes + sizeBytes
      else m.highWaterBytes }

/-- The manager with a buffer taken back, before the level is looked at. -/
def takenBack (m : BufferManager) (id sizeBytes : ℕ) : BufferManager :=
  { m with
    entries := m.entries.map (Entry.releasedAs id)
    inUseBytes := m.inUseBytes - sizeBytes
    activeCount := m.activeCount - 1 }

theorem find_eq_none (h : m.Sound) : m.find m.nextId = none := by
  refine List.find?_eq_none.2 fun e he => ?_
  have hlt := (h.ids e he).2
  simp only [decide_eq_true_eq]
  omega

/-- **`allocate`** is refused, and only its failures are counted; is refused
for want of an entry, with an id used up; or hands out a new buffer that the
capacity has room for. -/
theorem allocate_cases (h : m.Sound) (size alignment : UInt64) (platform : Platform) :
    (∃ failures e, m.allocate size alignment platform =
        ({ m with allocationFailures := failures }, .error e)) ∨
      (∃ e, (platform = .noEntry ∨ platform = .entryThrows) ∧
        m.allocate size alignment platform =
          ({ m with allocationFailures := m.allocationFailures + 1, nextId := m.nextId + 1 },
            .error e)) ∨
      ∃ effective, 0 < size.toNat ∧ m.inUseBytes + size.toNat ≤ m.config.capacityBytes ∧
        m.allocate size alignment platform =
          ((m.granted size.toNat effective).maybeRecordPressureEvent,
            .ok ⟨m.nextId, size.toNat, .owned⟩) := by
  have hpressure := h.pressure
  have hfailed : m.allocationFailed.maybeRecordPressureEvent = m.allocationFailed :=
    maybeRecord_of_eq hpressure
  have hused : ({ m with nextId := m.nextId + 1 } :
      BufferManager).allocationFailed.maybeRecordPressureEvent =
      ({ m with nextId := m.nextId + 1 } : BufferManager).allocationFailed :=
    maybeRecord_of_eq hpressure
  unfold allocate
  dsimp only
  generalize (if alignment.toNat = 0 then m.config.defaultAlignment else alignment.toNat) =
    effective
  by_cases hzero : size.toNat = 0
  · exact .inl ⟨m.allocationFailures, _, if_pos hzero⟩
  rw [if_neg hzero]
  by_cases halign : (!isPowerOfTwo effective || decide (effective > kMaxAlignment)) = true
  · exact .inl ⟨m.allocationFailures, _, if_pos halign⟩
  rw [if_neg halign]
  by_cases hmax : m.config.maxBufferBytes ≠ 0 ∧ size.toNat > m.config.maxBufferBytes
  · exact .inl ⟨m.allocationFailures, _, if_pos hmax⟩
  rw [if_neg hmax]
  by_cases hfull : add64 m.inUseBytes size.toNat < m.inUseBytes ∨
      add64 m.inUseBytes size.toNat > m.config.capacityBytes
  · rw [if_pos hfull, hfailed]
    exact .inl ⟨m.allocationFailures + 1, _, rfl⟩
  rw [if_neg hfull]
  have hroom : m.inUseBytes + size.toNat ≤ m.config.capacityBytes := by
    have hcap := m.config.capacity.2
    have hin := h.within
    have hsize := size.toNat_lt
    unfold add64 word64 at hfull
    unfold word64 at hcap
    omega
  unfold allocateStorage
  cases platform with
  | noStorage =>
    rw [if_pos rfl, hfailed]
    exact .inl ⟨m.allocationFailures + 1, _, rfl⟩
  | noEntry =>
    rw [if_neg (by decide)]
    dsimp only
    rw [if_pos rfl, hused]
    exact .inr (.inl ⟨_, .inl rfl, rfl⟩)
  | entryThrows =>
    rw [if_neg (by decide)]
    dsimp only
    rw [if_neg (by decide), if_pos rfl, hused]
    exact .inr (.inl ⟨_, .inr rfl, rfl⟩)
  | grants =>
    have hfind : ({ m with nextId := m.nextId + 1 } : BufferManager).find m.nextId = none :=
      find_eq_none h
    have hcreate : BufferRef.create m.nextId size.toNat .owned =
        .ok ⟨m.nextId, size.toNat, .owned⟩ := by
      have hnext := h.next
      unfold BufferRef.create BufferRef.kNullId
      rw [if_neg (by omega), if_neg (by omega)]
    rw [if_neg (by decide)]
    dsimp only
    rw [if_neg (by decide), if_neg (by decide), hfind, if_neg (by decide), hcreate]
    exact .inr (.inr ⟨effective, by omega, hroom, rfl⟩)

/-- **`release`** is refused, and only its failures are counted; or takes
back a buffer that is in use, named with its size. -/
theorem release_cases (m : BufferManager) (handle : BufferRef) :
    (∃ failures e, m.release handle = ({ m with releaseFailures := failures }, .error e)) ∨
      ∃ entry, m.find handle.id = some entry ∧ entry.released = false ∧
        m.release handle =
          ((m.takenBack handle.id entry.sizeBytes).maybeRecordPressureEvent, .ok ()) := by
  unfold release
  by_cases hnull : handle.isNull = true
  · exact .inl ⟨m.releaseFailures, _, if_pos hnull⟩
  rw [if_neg hnull]
  rcases hfind : m.find handle.id with _ | entry
  · exact .inl ⟨m.releaseFailures + 1, _, rfl⟩
  dsimp only
  by_cases hreleased : entry.released = true
  · exact .inl ⟨m.releaseFailures + 1, _, if_pos hreleased⟩
  rw [if_neg hreleased]
  by_cases hsize : entry.sizeBytes ≠ handle.sizeBytes
  · exact .inl ⟨m.releaseFailures + 1, _, if_pos hsize⟩
  rw [if_neg hsize]
  exact .inr ⟨entry, rfl, by simpa using hreleased, rfl⟩

/-! ## The account -/

theorem live_append (m : BufferManager) {entry : Entry} (h : entry.released = false) :
    (m.entries ++ [entry]).filter (fun e => !e.released) = m.live ++ [entry] := by
  rw [List.filter_append, List.filter_singleton, h]
  rfl

theorem releasedAs_of_ne {id : ℕ} {entries : List Entry} (h : ∀ e ∈ entries, e.id ≠ id) :
    entries.map (Entry.releasedAs id) = entries := by
  conv_rhs => rw [← List.map_id entries]
  refine List.map_congr_left fun e he => ?_
  exact if_neg (h e he)

/-- **Where an id stands in the table**: once, so that releasing it leaves
the entries around it as they are. -/
theorem find_split (h : m.Sound) {id : ℕ} {entry : Entry} (hfind : m.find id = some entry) :
    ∃ front back, m.entries = front ++ entry :: back ∧ entry.id = id ∧
      m.entries.map (Entry.releasedAs id) =
        front ++ { entry with released := true } :: back := by
  obtain ⟨hid, front, back, hsplit, hfront⟩ := List.find?_eq_some_iff_append.1 hfind
  have hid' : entry.id = id := by simpa using hid
  have hnodup := h.nodup
  rw [hsplit, List.map_append, List.map_cons] at hnodup
  obtain ⟨-, hback, -⟩ := List.nodup_append.1 hnodup
  have hbehind : ∀ e ∈ back, e.id ≠ id := by
    intro e he heq
    refine (List.nodup_cons.1 hback).1 ?_
    rw [hid', ← heq]
    exact List.mem_map_of_mem he
  have hbefore : ∀ e ∈ front, e.id ≠ id := fun e he => by simpa using hfront e he
  refine ⟨front, back, hsplit, hid', ?_⟩
  rw [hsplit, List.map_append, List.map_cons, releasedAs_of_ne hbefore, releasedAs_of_ne hbehind,
    Entry.releasedAs, if_pos hid']

/-- What holds of a manager whose level was not looked at yet. -/
structure Unseen (m : BufferManager) : Prop where
  ids : ∀ e ∈ m.entries, 0 < e.id ∧ e.id < m.nextId
  next : 0 < m.nextId
  nodup : (m.entries.map Entry.id).Nodup
  inUse : m.inUseBytes = (m.live.map Entry.sizeBytes).sum
  active : m.activeCount = m.live.length
  within : m.inUseBytes ≤ m.config.capacityBytes

theorem Unseen.sound (h : Unseen m) (hring : m.maybeRecordPressureEvent.pressureEvents.Sound) :
    m.maybeRecordPressureEvent.Sound := by
  obtain ⟨events, dropped, hframe⟩ := maybeRecord_frame m
  rw [hframe] at hring ⊢
  exact ⟨h.ids, h.next, h.nodup, h.inUse, h.active, h.within, rfl, hring⟩

theorem Sound.granted (h : m.Sound) {size alignment : ℕ}
    (hroom : m.inUseBytes + size ≤ m.config.capacityBytes) :
    Unseen (m.granted size alignment) := by
  have hnext := h.next
  have hlive : (m.granted size alignment).live = m.live ++ [⟨m.nextId, size, alignment, false⟩] :=
    live_append m rfl
  refine ⟨fun e he => ?_, Nat.succ_pos _, ?_, ?_, ?_, hroom⟩
  · rcases List.mem_append.1 he with he | he
    · have hid := h.ids e he
      exact ⟨hid.1, Nat.lt_succ_of_lt hid.2⟩
    · rw [List.mem_singleton.1 he]
      exact ⟨hnext, Nat.lt_succ_self _⟩
  · show ((m.entries ++ [_]).map Entry.id).Nodup
    rw [List.map_append, List.map_singleton]
    refine List.nodup_append.2 ⟨h.nodup, by simp, ?_⟩
    intro a ha b hb
    obtain ⟨e, he, rfl⟩ := List.mem_map.1 ha
    rw [List.mem_singleton.1 hb]
    exact Nat.ne_of_lt (h.ids e he).2
  · rw [hlive, List.map_append, List.sum_append, ← h.inUse]
    rfl
  · rw [hlive, List.length_append, ← h.active]
    rfl

theorem Sound.takenBack (h : m.Sound) {id : ℕ} {entry : Entry} (hfind : m.find id = some entry)
    (hreleased : entry.released = false) : Unseen (m.takenBack id entry.sizeBytes) := by
  obtain ⟨front, back, hsplit, hid, hmap⟩ := find_split h hfind
  have hids : (m.takenBack id entry.sizeBytes).entries.map Entry.id = m.entries.map Entry.id := by
    show (m.entries.map (Entry.releasedAs id)).map Entry.id = _
    rw [hmap, hsplit, List.map_append, List.map_append, List.map_cons, List.map_cons]
  have hbefore : m.live = front.filter (fun e => !e.released) ++
      entry :: back.filter (fun e => !e.released) := by
    unfold live
    rw [hsplit, List.filter_append, List.filter_cons_of_pos (by rw [hreleased]; rfl)]
  have hafter : (m.takenBack id entry.sizeBytes).live =
      front.filter (fun e => !e.released) ++ back.filter (fun e => !e.released) := by
    show (m.entries.map (Entry.releasedAs id)).filter _ = _
    rw [hmap, List.filter_append, List.filter_cons_of_neg (by simp)]
  have hsum := h.inUse
  have hcount := h.active
  have hwithin := h.within
  rw [hbefore, List.map_append, List.map_cons, List.sum_append, List.sum_cons] at hsum
  rw [hbefore, List.length_append, List.length_cons] at hcount
  refine ⟨fun e he => ?_, h.next, hids ▸ h.nodup, ?_, ?_, ?_⟩
  · have hmem : e.id ∈ m.entries.map Entry.id := hids ▸ List.mem_map_of_mem he
    obtain ⟨e', he', heq⟩ := List.mem_map.1 hmem
    rw [← heq]
    exact h.ids e' he'
  · rw [hafter, List.map_append, List.sum_append]
    show m.inUseBytes - entry.sizeBytes = _
    omega
  · rw [hafter, List.length_append]
    show m.activeCount - 1 = _
    omega
  · show m.inUseBytes - entry.sizeBytes ≤ m.config.capacityBytes
    omega

/-- Failures counted, and an id used up, leave a manager sound. -/
theorem Sound.counted (h : m.Sound) {allocations releases next : ℕ} (hnext : m.nextId ≤ next) :
    ({ m with allocationFailures := allocations, releaseFailures := releases,
              nextId := next } : BufferManager).Sound where
  ids := fun e he => ⟨(h.ids e he).1, Nat.lt_of_lt_of_le (h.ids e he).2 hnext⟩
  next := Nat.lt_of_lt_of_le h.next hnext
  nodup := h.nodup
  inUse := h.inUse
  active := h.active
  within := h.within
  pressure := h.pressure
  ring := h.ring

end BufferManager

/-! ## Calls one after another -/

/-- A call of the manager, with what the platform answers an allocation. -/
inductive BufferCall
  | allocate (sizeBytes alignment : UInt64) (platform : Platform)
  | release (handle : BufferRef)
  | releaseIfOwned (handle : BufferRef)
  | drainPressureEvents
  deriving DecidableEq, Repr

/-- What a call returned: a refusal, or the handle it made, the id it took
back, the events it drained. -/
inductive BufferAnswer
  | refused (error : Error)
  | handle (ref : BufferRef)
  | freed (id : ℕ)
  | nothing
  | events (drained : List BufferPressureEvent)
  deriving DecidableEq, Repr

namespace BufferAnswer

def handedOut : BufferAnswer → List BufferRef
  | .handle ref => [ref]
  | _ => []

def returned : BufferAnswer → List ℕ
  | .freed id => [id]
  | _ => []

def drained : BufferAnswer → List BufferPressureEvent
  | .events drained => drained
  | _ => []

end BufferAnswer

namespace BufferManager

variable {m m' : BufferManager}

/-- One call. -/
def call (m : BufferManager) : BufferCall → BufferManager × BufferAnswer
  | .allocate sizeBytes alignment platform =>
    match m.allocate sizeBytes alignment platform with
    | (m, .error e) => (m, .refused e)
    | (m, .ok ref) => (m, .handle ref)
  | .release handle =>
    match m.release handle with
    | (m, .error e) => (m, .refused e)
    | (m, .ok ()) => (m, .freed handle.id)
  | .releaseIfOwned handle =>
    match m.releaseIfOwned handle with
    | (m, .error e) => (m, .refused e)
    | (m, .ok true) => (m, .freed handle.id)
    | (m, .ok false) => (m, .nothing)
  | .drainPressureEvents =>
    match m.drainPressureEvents with
    | (m, drained) => (m, .events drained)

/-- The calls whose refusal uses up an id: the table could not take the
entry. -/
def Unplaced : BufferCall → Prop
  | .allocate _ _ platform => platform = .noEntry ∨ platform = .entryThrows
  | _ => False

/-- **What a call does.** -/
inductive Done (m : BufferManager) (request : BufferCall) : BufferManager → BufferAnswer → Prop
  | refused {allocations releases next : ℕ} {e : Error}
      (hnext : next = m.nextId ∨ (Unplaced request ∧ next = m.nextId + 1)) :
      Done m request
        { m with allocationFailures := allocations, releaseFailures := releases, nextId := next }
        (.refused e)
  | granted {size effective : ℕ} (hpos : 0 < size)
      (hroom : m.inUseBytes + size ≤ m.config.capacityBytes) :
      Done m request (m.granted size effective).maybeRecordPressureEvent
        (.handle ⟨m.nextId, size, .owned⟩)
  | freed {id : ℕ} {entry : Entry} (hfind : m.find id = some entry)
      (hreleased : entry.released = false) :
      Done m request (m.takenBack id entry.sizeBytes).maybeRecordPressureEvent (.freed id)
  | nothing : Done m request m .nothing
  | drained : Done m request { m with pressureEvents := m.pressureEvents.clear }
      (.events m.waiting)

theorem call_done (h : m.Sound) (request : BufferCall) :
    Done m request (m.call request).1 (m.call request).2 := by
  cases request with
  | allocate size alignment platform =>
    unfold call
    dsimp only
    rcases allocate_cases h size alignment platform with ⟨failures, e, hcall⟩ |
      ⟨e, hplatform, hcall⟩ | ⟨effective, hpos, hroom, hcall⟩
    · rw [hcall]
      exact .refused (.inl rfl)
    · rw [hcall]
      exact .refused (.inr ⟨hplatform, rfl⟩)
    · rw [hcall]
      exact .granted hpos hroom
  | release handle =>
    unfold call
    dsimp only
    rcases release_cases m handle with ⟨failures, e, hcall⟩ | ⟨entry, hfind, hreleased, hcall⟩
    · rw [hcall]
      exact .refused (.inl rfl)
    · rw [hcall]
      exact .freed hfind hreleased
  | releaseIfOwned handle =>
    unfold call releaseIfOwned
    dsimp only
    by_cases hskip : (handle.isNull || decide (handle.ownership = .released)) = true
    · rw [if_pos hskip]
      exact .nothing
    rw [if_neg hskip]
    rcases release_cases m handle with ⟨failures, e, hcall⟩ | ⟨entry, hfind, hreleased, hcall⟩
    · rw [hcall]
      exact .refused (.inl rfl)
    · rw [hcall]
      exact .freed hfind hreleased
  | drainPressureEvents => exact .drained

theorem changeTo_of_eq (h : m'.level = m.level) : changeTo m m' = [] := if_pos h.symm

theorem Done.config {request : BufferCall} {answer : BufferAnswer}
    (hd : Done m request m' answer) : m'.config = m.config := by
  have hrecord : ∀ m : BufferManager, m.maybeRecordPressureEvent.config = m.config := by
    intro m
    obtain ⟨events, dropped, hframe⟩ := maybeRecord_frame m
    rw [hframe]
  cases hd with
  | refused _ => rfl
  | granted _ _ => exact hrecord _
  | freed _ _ => exact hrecord _
  | nothing => rfl
  | drained => rfl

/-- **A call keeps the manager sound** and moves its events one step. -/
theorem Done.sound {request : BufferCall} {answer : BufferAnswer} (h : m.Sound)
    (hd : Done m request m' answer) : m'.Sound ∧ EventMove m m' answer.drained := by
  cases hd with
  | refused hnext =>
    refine ⟨h.counted ?_, .still rfl rfl (changeTo_of_eq rfl)⟩
    rcases hnext with rfl | ⟨-, rfl⟩ <;> omega
  | @granted size effective hpos hroom =>
    obtain ⟨hmove, hring⟩ := eventMove_maybeRecord (m := m.granted size effective) h.pressure rfl
      rfl rfl h.ring
    exact ⟨(h.granted hroom).sound hring, hmove⟩
  | @freed id entry hfind hreleased =>
    obtain ⟨hmove, hring⟩ := eventMove_maybeRecord (m := m.takenBack id entry.sizeBytes) h.pressure
      rfl rfl rfl h.ring
    exact ⟨(h.takenBack hfind hreleased).sound hring, hmove⟩
  | nothing => exact ⟨h, .still rfl rfl (changeTo_of_eq rfl)⟩
  | drained =>
    refine ⟨⟨h.ids, h.next, h.nodup, h.inUse, h.active, h.within, h.pressure, h.ring.clear⟩, ?_⟩
    refine .drain ?_ ?_ ?_
    · exact RingQueue.entries_clear
    · rfl
    · exact changeTo_of_eq rfl

end BufferManager

/-- A manager with what its calls returned and the changes of its level, in
their order. -/
structure BufferLedger where
  manager : BufferManager
  handedOut : List BufferRef := []
  returned : List ℕ := []
  drained : List BufferPressureEvent := []
  changes : List BufferPressureEvent := []

namespace BufferLedger

open BufferManager

variable {l : BufferLedger}

/-- One call, noted. -/
def step (l : BufferLedger) (request : BufferCall) : BufferLedger :=
  let (manager, answer) := l.manager.call request
  { manager := manager
    handedOut := l.handedOut ++ answer.handedOut
    returned := l.returned ++ answer.returned
    drained := l.drained ++ answer.drained
    changes := l.changes ++ changeTo l.manager manager }

/-- The ledger of a new manager after a sequence of calls. -/
def after (config : BufferManagerConfig) (requests : List BufferCall) : BufferLedger :=
  requests.foldl step { manager := { config := config } }

/-- **The fate of every change**: those that left the ring, each with
whether it was drained, then those that wait. -/
def Fates (l : BufferLedger) (gone : List (BufferPressureEvent × Bool)) : Prop :=
  l.changes = gone.map Prod.fst ++ l.manager.waiting ∧
    l.drained = (gone.filter Prod.snd).map Prod.fst ∧
    l.manager.pressureEventsDropped = (gone.filter fun g => !g.2).length

/-- Each change begins at the level where the one before it ended, the first
at the normal level. -/
structure Linked (l : BufferLedger) : Prop where
  chain : l.changes.IsChain fun a b => a.current = b.previous
  first : ∀ e, l.changes.head? = some e → e.previous = .normal
  last : (l.changes.getLast?.map BufferPressureEvent.current).getD .normal = l.manager.level

/-- **The table is what was handed out**, marked where it was returned. -/
structure Books (m : BufferManager) (handedOut : List BufferRef) (returned : List ℕ) : Prop where
  handles : handedOut = m.entries.map fun e => ⟨e.id, e.sizeBytes, .owned⟩
  once : returned.Nodup
  released : ∀ e ∈ m.entries, e.released = true ↔ e.id ∈ returned
  known : ∀ id ∈ returned, id ∈ m.entries.map Entry.id

/-- What holds of a ledger. -/
structure Sound (l : BufferLedger) : Prop where
  manager : l.manager.Sound
  books : Books l.manager l.handedOut l.returned
  fates : ∃ gone, Fates l gone
  linked : Linked l

theorem fates_step {gone : List (BufferPressureEvent × Bool)} {m' : BufferManager}
    {drained : List BufferPressureEvent} {handedOut : List BufferRef} {returned : List ℕ}
    (h : Fates l gone) (hmove : EventMove l.manager m' drained) :
    ∃ gone', Fates ⟨m', handedOut, returned, l.drained ++ drained,
      l.changes ++ changeTo l.manager m'⟩ gone' := by
  obtain ⟨hchanges, hdrained, hdropped⟩ := h
  unfold Fates
  dsimp only
  cases hmove with
  | still hw hd hc =>
    refine ⟨gone, ?_, ?_, hd.trans hdropped⟩
    · rw [hc, hw, List.append_nil, hchanges]
    · rw [List.append_nil, hdrained]
  | record hw hd hc =>
    refine ⟨gone, ?_, ?_, hd.trans hdropped⟩
    · rw [hc, hw, hchanges, List.append_assoc]
    · rw [List.append_nil, hdrained]
  | @overwrite e oldest rest hold hw hd hc =>
    -- the oldest one waiting leaves the ring undrained
    refine ⟨gone ++ [(oldest, false)], ?_, ?_, ?_⟩
    · rw [hc, hw, hchanges, hold, List.map_append]
      simp
    · rw [List.append_nil, hdrained, List.filter_append]
      simp
    · rw [hd, hdropped, List.filter_append]
      simp
  | drain hw hd hc =>
    refine ⟨gone ++ l.manager.waiting.map fun e => (e, true), ?_, ?_, ?_⟩
    · rw [hc, hw, hchanges, List.map_append, List.map_map]
      simp [Function.comp_def]
    · rw [hdrained, List.filter_append, List.map_append]
      simp [List.filter_map, Function.comp_def]
    · rw [hd, hdropped, List.filter_append]
      simp [List.filter_map, Function.comp_def]

theorem linked_step {m' : BufferManager} {drained : List BufferPressureEvent}
    {handedOut : List BufferRef} {returned : List ℕ} (h : Linked l) :
    Linked ⟨m', handedOut, returned, drained, l.changes ++ changeTo l.manager m'⟩ := by
  by_cases hsame : l.manager.level = m'.level
  · have hnone : changeTo l.manager m' = [] := if_pos hsame
    rw [hnone, List.append_nil]
    exact ⟨h.chain, h.first, h.last.trans hsame⟩
  have hone : changeTo l.manager m' = [m'.eventOf l.manager.level m'.level] := if_neg hsame
  rw [hone]
  have hlast := h.last
  refine ⟨?_, ?_, ?_⟩
  · refine List.isChain_append.2 ⟨h.chain, List.isChain_singleton _, ?_⟩
    intro a ha b hb
    rw [List.head?_cons, Option.mem_some_iff] at hb
    subst hb
    rw [Option.mem_def.1 ha] at hlast
    exact hlast
  · intro e he
    rcases hchanges : l.changes with _ | ⟨first, rest⟩
    · rw [hchanges] at he hlast
      rw [List.nil_append, List.head?_cons, Option.some.injEq] at he
      subst he
      exact hlast.symm
    · have hfirst := h.first first (by rw [hchanges]; rfl)
      rw [hchanges, List.cons_append, List.head?_cons, Option.some.injEq] at he
      rw [← he]
      exact hfirst
  · rw [List.getLast?_concat]
    rfl

theorem entries_maybeRecord (m : BufferManager) :
    m.maybeRecordPressureEvent.entries = m.entries := by
  obtain ⟨events, dropped, hframe⟩ := maybeRecord_frame m
  rw [hframe]

theorem Books.granted {m : BufferManager} {handedOut : List BufferRef} {returned : List ℕ}
    (h : Books m handedOut returned) (hm : m.Sound) (size effective : ℕ) :
    Books (m.granted size effective) (handedOut ++ [⟨m.nextId, size, .owned⟩]) returned := by
  -- the new id was not returned yet: it is in no entry
  have hfresh : m.nextId ∉ returned := by
    intro hmem
    obtain ⟨e, he, heq⟩ := List.mem_map.1 (h.known _ hmem)
    have := (hm.ids e he).2
    omega
  refine ⟨?_, h.once, fun e he => ?_, fun id hid => ?_⟩
  · show _ = (m.entries ++ [_]).map _
    rw [List.map_append, h.handles]
    rfl
  · rcases List.mem_append.1 he with he | he
    · exact h.released e he
    · rw [List.mem_singleton.1 he]
      exact ⟨nofun, fun hmem => absurd hmem hfresh⟩
  · show id ∈ (m.entries ++ [_]).map Entry.id
    rw [List.map_append]
    exact List.mem_append_left _ (h.known id hid)

theorem Books.takenBack {m : BufferManager} {handedOut : List BufferRef} {returned : List ℕ}
    (h : Books m handedOut returned) (hm : m.Sound) {id : ℕ} {entry : Entry}
    (hfind : m.find id = some entry) (hreleased : entry.released = false) :
    Books (m.takenBack id entry.sizeBytes) handedOut (returned ++ [id]) := by
  obtain ⟨front, back, hsplit, hid, hmap⟩ := find_split hm hfind
  have hmem : entry ∈ m.entries := by
    rw [hsplit]
    exact List.mem_append_right _ List.mem_cons_self
  have hnew : id ∉ returned := by
    intro hin
    have := (h.released entry hmem).2 (hid.symm ▸ hin)
    rw [hreleased] at this
    exact absurd this (by decide)
  refine ⟨?_, ?_, fun e he => ?_, fun k hk => ?_⟩
  · show _ = (m.entries.map (Entry.releasedAs id)).map _
    rw [hmap, h.handles, hsplit]
    simp
  · refine List.nodup_append.2 ⟨h.once, by simp, ?_⟩
    intro a ha b hb
    rw [List.mem_singleton.1 hb]
    rintro rfl
    exact hnew ha
  · obtain ⟨e', he', rfl⟩ := List.mem_map.1 (show e ∈ m.entries.map (Entry.releasedAs id) from he)
    rw [List.mem_append, List.mem_singleton]
    unfold Entry.releasedAs
    by_cases heq : e'.id = id
    · rw [if_pos heq]
      exact ⟨fun _ => .inr heq, fun _ => rfl⟩
    · rw [if_neg heq, h.released e' he']
      exact ⟨.inl, fun hor => hor.resolve_right heq⟩
  · have hids : (m.entries.map (Entry.releasedAs id)).map Entry.id = m.entries.map Entry.id := by
      rw [hmap, hsplit]
      simp
    show k ∈ (m.entries.map (Entry.releasedAs id)).map Entry.id
    rw [hids]
    rcases List.mem_append.1 hk with hk | hk
    · exact h.known k hk
    · rw [List.mem_singleton.1 hk, ← hid]
      exact List.mem_map_of_mem hmem

/-- The books read nothing but the entries. -/
theorem Books.congr {m m' : BufferManager} {handedOut : List BufferRef} {returned : List ℕ}
    (h : Books m handedOut returned) (heq : m'.entries = m.entries) :
    Books m' handedOut returned := by
  refine ⟨?_, h.once, ?_, ?_⟩
  · rw [heq]
    exact h.handles
  · rw [heq]
    exact h.released
  · rw [heq]
    exact h.known

theorem Books.done {m m' : BufferManager} {handedOut : List BufferRef} {returned : List ℕ}
    {request : BufferCall} {answer : BufferAnswer} (h : Books m handedOut returned) (hm : m.Sound)
    (hd : Done m request m' answer) :
    Books m' (handedOut ++ answer.handedOut) (returned ++ answer.returned) := by
  cases hd with
  | refused _ =>
    simp only [BufferAnswer.handedOut, BufferAnswer.returned, List.append_nil]
    exact h.congr rfl
  | granted _ _ =>
    simp only [BufferAnswer.handedOut, BufferAnswer.returned, List.append_nil]
    exact (h.granted hm _ _).congr (entries_maybeRecord _)
  | freed hfind hreleased =>
    simp only [BufferAnswer.handedOut, BufferAnswer.returned, List.append_nil]
    exact (h.takenBack hm hfind hreleased).congr (entries_maybeRecord _)
  | nothing =>
    simp only [BufferAnswer.handedOut, BufferAnswer.returned, List.append_nil]
    exact h
  | drained =>
    simp only [BufferAnswer.handedOut, BufferAnswer.returned, List.append_nil]
    exact h.congr rfl

/-- **Every call keeps the ledger.** -/
theorem Sound.step (h : l.Sound) (request : BufferCall) : (l.step request).Sound := by
  have hdone := call_done h.manager request
  unfold BufferLedger.step
  generalize l.manager.call request = result at hdone ⊢
  obtain ⟨m', answer⟩ := result
  obtain ⟨hmanager, hmove⟩ := hdone.sound h.manager
  obtain ⟨gone, hgone⟩ := h.fates
  exact ⟨hmanager, h.books.done h.manager hdone, fates_step hgone hmove, linked_step h.linked⟩

theorem sound_new (config : BufferManagerConfig) :
    Sound { manager := { config := config } } where
  manager := ⟨nofun, Nat.one_pos, List.nodup_nil, rfl, rfl, Nat.zero_le _,
    config.unpressed.symm, ⟨show 0 < 32 by decide, Nat.zero_le _⟩⟩
  books := ⟨rfl, List.nodup_nil, nofun, nofun⟩
  fates := ⟨[], rfl, rfl, rfl⟩
  linked := ⟨List.isChain_nil, nofun, config.unpressed.symm⟩

theorem sound_after (config : BufferManagerConfig) (requests : List BufferCall) :
    (after config requests).Sound := by
  induction requests using List.reverseRecOn with
  | nil => exact sound_new config
  | append_singleton requests request ih =>
    unfold after
    rw [List.foldl_append]
    exact ih.step request

theorem config_after (config : BufferManagerConfig) (requests : List BufferCall) :
    (after config requests).manager.config = config := by
  induction requests using List.reverseRecOn with
  | nil => rfl
  | append_singleton requests request ih =>
    have hdone := call_done (sound_after config requests).manager request
    unfold after at ih hdone ⊢
    rw [List.foldl_append]
    exact hdone.config.trans ih

/-- The handles out and not returned. -/
def inUse (l : BufferLedger) : List BufferRef := l.handedOut.filter fun r => r.id ∉ l.returned

theorem Sound.live (h : l.Sound) :
    l.inUse = l.manager.live.map fun e => ⟨e.id, e.sizeBytes, .owned⟩ := by
  unfold inUse BufferManager.live
  rw [h.books.handles, List.filter_map]
  congr 1
  refine List.filter_congr fun e he => ?_
  have hrel := h.books.released e he
  simp only [Function.comp_apply]
  by_cases hin : e.id ∈ l.returned
  · rw [hrel.2 hin]
    simp [hin]
  · have hfalse : e.released = false := by
      rw [← Bool.not_eq_true]
      exact fun htrue => hin (hrel.1 htrue)
    rw [hfalse]
    simp [hin]

/-- **What a refused call changes**: counters of failures, and where the
table could not take an entry the next id. -/
def RefusalsCount (m : BufferManager) : Prop :=
  ∀ request e, (m.call request).2 = .refused e →
    ∃ allocations releases next, (next = m.nextId ∨ (Unplaced request ∧ next = m.nextId + 1)) ∧
      (m.call request).1 =
        { m with allocationFailures := allocations, releaseFailures := releases, nextId := next }

theorem refusalsCount {m : BufferManager} (h : m.Sound) : RefusalsCount m := by
  intro request e hrefused
  have hdone := call_done h request
  generalize m.call request = result at hdone hrefused ⊢
  obtain ⟨m', answer⟩ := result
  dsimp only at hrefused hdone ⊢
  subst hrefused
  cases hdone with
  | refused hnext => exact ⟨_, _, _, hnext, rfl⟩

/-- **The buffer plane accounts for every buffer and every change of its
level**, after any sequence of calls. The bytes and the count in use are
those of the handles out and not returned, within the capacity; no id is
handed out twice and none returned twice; a refused call counts a failure.
The changes of the level are those drained and those dropped, in their
order, then those that wait, each beginning where the one before ended. -/
theorem buffers_accounted (config : BufferManagerConfig) (requests : List BufferCall) :
    let l := after config requests
    l.manager.inUseBytes = (l.inUse.map BufferRef.sizeBytes).sum ∧
      l.manager.inUseBytes ≤ config.capacityBytes ∧
      l.manager.activeCount = l.inUse.length ∧
      (l.handedOut.map BufferRef.id).Nodup ∧
      (l.returned.Nodup ∧ ∀ id ∈ l.returned, id ∈ l.handedOut.map BufferRef.id) ∧
      RefusalsCount l.manager ∧
      (∃ gone, Fates l gone) ∧ Linked l := by
  intro l
  have h : l.Sound := sound_after config requests
  have hlive := h.live
  have hids : l.handedOut.map BufferRef.id = l.manager.entries.map Entry.id := by
    rw [h.books.handles, List.map_map]
    rfl
  have hwithin : l.manager.inUseBytes ≤ config.capacityBytes := by
    have hle := h.manager.within
    rwa [config_after config requests] at hle
  refine ⟨?_, hwithin, ?_, ?_, ⟨h.books.once, ?_⟩, refusalsCount h.manager, h.fates,
    h.linked⟩
  · rw [hlive, List.map_map, h.manager.inUse]
    rfl
  · rw [hlive, List.length_map, h.manager.active]
  · rw [hids]
    exact h.manager.nodup
  · rw [hids]
    exact h.books.known

/-- A pool whose level never changes. -/
def smallPool : BufferManagerConfig where
  capacityBytes := 1024
  maxBufferBytes := 0
  defaultAlignment := 64
  pressureOf := fun _ => .normal
  capacity := by decide
  maxBuffer := .inl rfl
  alignment := by decide
  unpressed := rfl

/-- **A refusal that uses up an id.** The table cannot take the entry of the
first allocation: the call is refused, and the next handle is number two. -/
theorem unplaced_refusal_uses_id :
    let m := (after smallPool []).manager
    ¬∀ request e, (m.call request).2 = .refused e → ∃ allocations releases, (m.call request).1 =
      { m with allocationFailures := allocations, releaseFailures := releases } := by
  intro m hcount
  have hrefused : (m.call (.allocate 8 0 .noEntry)).2 = .refused
      (refusal .oomError "BufferManager.allocate: failed to record allocation metadata") := by
    decide +kernel
  obtain ⟨allocations, releases, hsame⟩ := hcount _ _ hrefused
  have hid := congrArg BufferManager.nextId hsame
  have htwo : (m.call (.allocate 8 0 .noEntry)).1.nextId = 2 := by decide +kernel
  have hone : m.nextId = 1 := by decide +kernel
  rw [htwo] at hid
  exact absurd (hid.trans hone) (by decide)

end BufferLedger

end Buffer

end Tensorplate
