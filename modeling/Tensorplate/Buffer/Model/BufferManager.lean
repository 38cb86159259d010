import Tensorplate.Core.Error
import Tensorplate.Lib.Ring
import Tensorplate.Lib.Word

/-!
# The buffer plane

`BufferManager` hands out buffers by id, takes them back once and records
where the memory pressure changed. A handle is a value: a caller may copy
it, release it twice, or make one up. What the allocator of the platform
answers is an argument of `allocate`. Ids and counters that only grow are
naturals; sizes are 64-bit words.
-/

namespace Tensorplate

namespace Buffer

open Lib

/-- `MemoryPressure`. -/
inductive MemoryPressure
  | normal
  | warning
  | critical
  deriving DecidableEq, Repr

/-- `BufferOwnership`. -/
inductive BufferOwnership
  | owned
  | borrowed
  | released
  deriving DecidableEq, Repr

/-- `BufferRef`. -/
structure BufferRef where
  id : ℕ
  sizeBytes : ℕ
  ownership : BufferOwnership
  deriving DecidableEq, Repr

/-- A refusal without a context. -/
def refusal (code : ErrorCode) (message : String) : Error := ⟨code, message, none⟩

namespace BufferRef

def kNullId : ℕ := 0

/-- `is_null`. -/
def isNull (handle : BufferRef) : Bool := handle.id = kNullId && handle.ownership = .released

/-- `BufferRef::create`. -/
def create (id sizeBytes : ℕ) (ownership : BufferOwnership) : Except Error BufferRef :=
  if ownership ≠ .released ∧ id = kNullId then
    .error (refusal .configInvalid "BufferRef.id == 0 is reserved for the released sentinel")
  else if ownership ≠ .released ∧ sizeBytes = 0 then
    .error (refusal .configInvalid "BufferRef.size_bytes must be > 0 for Owned/Borrowed handles")
  else .ok ⟨id, sizeBytes, ownership⟩

end BufferRef

def kMaxAlignment : ℕ := 4096

def kPressureEventBufferCapacity : ℕ := 32

/-- `is_power_of_two`. -/
def isPowerOfTwo (value : ℕ) : Bool := value ≠ 0 && value &&& (value - 1) = 0

/-- `BufferManagerConfig` as `create` accepts it. -/
structure BufferManagerConfig where
  capacityBytes : ℕ
  maxBufferBytes : ℕ
  defaultAlignment : ℕ
  /-- `compute_pressure_locked`, a function of the bytes in use. -/
  pressureOf : ℕ → MemoryPressure
  capacity : 0 < capacityBytes ∧ capacityBytes < word64
  maxBuffer : maxBufferBytes = 0 ∨ maxBufferBytes ≤ capacityBytes
  alignment : isPowerOfTwo defaultAlignment = true ∧ defaultAlignment ≤ kMaxAlignment
  /-- Both thresholds are above zero. -/
  unpressed : pressureOf 0 = .normal

/-- `BufferPressureEvent`. -/
structure BufferPressureEvent where
  previous : MemoryPressure := .normal
  current : MemoryPressure := .normal
  capacityBytes : ℕ := 0
  inUseBytes : ℕ := 0
  activeCount : ℕ := 0
  highWaterBytes : ℕ := 0
  allocationFailures : ℕ := 0
  deriving DecidableEq, Repr

/-- `Impl::Entry`. -/
structure Entry where
  id : ℕ
  sizeBytes : ℕ
  alignment : ℕ
  released : Bool := false
  deriving DecidableEq, Repr

/-- The entry, released where it has the id. -/
def Entry.releasedAs (id : ℕ) (e : Entry) : Entry :=
  if e.id = id then { e with released := true } else e

/-- `BufferManager::Impl`: its entries, by id and in the order in which they
came in. -/
structure BufferManager where
  config : BufferManagerConfig
  nextId : ℕ := 1
  entries : List Entry := []
  inUseBytes : ℕ := 0
  activeCount : ℕ := 0
  highWaterBytes : ℕ := 0
  allocationFailures : ℕ := 0
  releaseFailures : ℕ := 0
  lastPressure : MemoryPressure := .normal
  pressureEvents : RingQueue BufferPressureEvent :=
    { cells := List.replicate kPressureEventBufferCapacity {} }
  pressureEventsDropped : ℕ := 0

/-- What the platform answers an allocation: storage and a place in the
table, or what it throws. -/
inductive Platform
  | grants
  | noStorage
  | noEntry
  | entryThrows
  deriving DecidableEq, Repr

namespace BufferManager

/-- `entries.find`. -/
def find (m : BufferManager) (id : ℕ) : Option Entry := m.entries.find? fun e => e.id = id

/-- What `write_pressure_event_locked` writes. -/
def eventOf (m : BufferManager) (previous current : MemoryPressure) : BufferPressureEvent where
  previous := previous
  current := current
  capacityBytes := m.config.capacityBytes
  inUseBytes := m.inUseBytes
  activeCount := m.activeCount
  highWaterBytes := m.highWaterBytes
  allocationFailures := m.allocationFailures

/-- `record_pressure_event_locked`. -/
def recordPressureEvent (m : BufferManager) (previous current : MemoryPressure) : BufferManager :=
  { m with
    pressureEvents := m.pressureEvents.push (m.eventOf previous current)
    pressureEventsDropped :=
      if m.pressureEvents.count < m.pressureEvents.cells.length then m.pressureEventsDropped
      else m.pressureEventsDropped + 1 }

/-- `maybe_record_pressure_event_locked`. -/
def maybeRecordPressureEvent (m : BufferManager) : BufferManager :=
  let now := m.config.pressureOf m.inUseBytes
  if now = m.lastPressure then m
  else ({ m with lastPressure := now }).recordPressureEvent m.lastPressure now

/-- A refused allocation that counts as a failure. -/
def allocationFailed (m : BufferManager) : BufferManager :=
  { m with allocationFailures := m.allocationFailures + 1 }

/-- `allocate` behind its checks: storage, an id, an entry and a handle. -/
def allocateStorage (m : BufferManager) (sizeBytes alignment : ℕ) (platform : Platform) :
    BufferManager × Except Error BufferRef :=
  if platform = .noStorage then
    (m.allocationFailed.maybeRecordPressureEvent,
      .error (refusal .oomError "BufferManager.allocate: underlying allocator failed"))
  else
    let id := m.nextId
    let m := { m with nextId := m.nextId + 1 }
    if platform = .noEntry then
      (m.allocationFailed.maybeRecordPressureEvent,
        .error (refusal .oomError "BufferManager.allocate: failed to record allocation metadata"))
    else if platform = .entryThrows then
      (m.allocationFailed.maybeRecordPressureEvent,
        .error (refusal .internal "BufferManager.allocate: failed to record allocation metadata"))
    else if (m.find id).isSome then
      (m.allocationFailed,
        .error (refusal .internal "BufferManager.allocate: generated duplicate buffer id"))
    else
      let before := m.entries
      let m := { m with
        entries := m.entries ++ [Entry.mk id sizeBytes alignment false]
        inUseBytes := m.inUseBytes + sizeBytes
        activeCount := m.activeCount + 1 }
      let m := { m with
        highWaterBytes := if m.inUseBytes > m.highWaterBytes then m.inUseBytes
          else m.highWaterBytes }
      let m := m.maybeRecordPressureEvent
      match BufferRef.create id sizeBytes .owned with
      | .error e =>
        ({ m with
            entries := before
            inUseBytes := m.inUseBytes - sizeBytes
            activeCount := m.activeCount - 1 }.allocationFailed, .error e)
      | .ok ref => (m, .ok ref)

/-- `allocate`. -/
def allocate (m : BufferManager) (sizeBytes alignment : UInt64) (platform : Platform) :
    BufferManager × Except Error BufferRef :=
  let sizeBytes := sizeBytes.toNat
  let effective := if alignment.toNat = 0 then m.config.defaultAlignment else alignment.toNat
  if sizeBytes = 0 then
    (m, .error (refusal .configInvalid "BufferManager.allocate: size_bytes must be > 0"))
  else if !isPowerOfTwo effective || effective > kMaxAlignment then
    (m, .error (refusal .configInvalid
      "BufferManager.allocate: alignment must be a power of two in [1, kMaxAlignment]"))
  else if m.config.maxBufferBytes ≠ 0 ∧ sizeBytes > m.config.maxBufferBytes then
    (m, .error (refusal .unsupported
      "BufferManager.allocate: requested size exceeds BufferManagerConfig.max_buffer_bytes"))
  else if add64 m.inUseBytes sizeBytes < m.inUseBytes ∨
      add64 m.inUseBytes sizeBytes > m.config.capacityBytes then
    (m.allocationFailed.maybeRecordPressureEvent,
      .error (refusal .oomError "BufferManager.allocate: capacity_bytes would be exceeded"))
  else m.allocateStorage sizeBytes effective platform

/-- A refused release that counts as a failure. -/
def releaseFailed (m : BufferManager) : BufferManager :=
  { m with releaseFailures := m.releaseFailures + 1 }

/-- `release`. -/
def release (m : BufferManager) (handle : BufferRef) : BufferManager × Except Error Unit :=
  if handle.isNull then
    (m, .error (refusal .internal
      "BufferManager.release: refusing to release the null sentinel handle"))
  else
    match m.find handle.id with
    | none => (m.releaseFailed, .error (refusal .internal
        ("BufferManager.release: handle id " ++ toString handle.id ++
          " is not known to this manager")))
    | some entry =>
      if entry.released then
        (m.releaseFailed, .error (refusal .internal
          ("BufferManager.release: double release of handle id " ++ toString handle.id)))
      else if entry.sizeBytes ≠ handle.sizeBytes then
        (m.releaseFailed, .error (refusal .internal
          "BufferManager.release: handle size_bytes disagrees with manager record"))
      else
        ({ m with
            entries := m.entries.map (Entry.releasedAs handle.id)
            inUseBytes := m.inUseBytes - entry.sizeBytes
            activeCount := m.activeCount - 1 }.maybeRecordPressureEvent, .ok ())

/-- `release_if_owned`. -/
def releaseIfOwned (m : BufferManager) (handle : BufferRef) : BufferManager × Except Error Bool :=
  if handle.isNull || handle.ownership = .released then (m, .ok false)
  else
    match m.release handle with
    | (m, .error e) => (m, .error e)
    | (m, .ok ()) => (m, .ok true)

/-- `drain_pressure_events`. -/
def drainPressureEvents (m : BufferManager) : BufferManager × List BufferPressureEvent :=
  ({ m with pressureEvents := m.pressureEvents.clear }, m.pressureEvents.entries {})

end BufferManager

end Buffer

end Tensorplate
