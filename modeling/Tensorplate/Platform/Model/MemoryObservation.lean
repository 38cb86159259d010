import Mathlib.Algebra.GroupWithZero.Nat
import Mathlib.Data.Nat.Notation
import Mathlib.Data.List.Nodup

/-!
# Memory observations

One sample of one memory domain: its totals, the memory of the processes
that were seen, and which of these were available. No reading that failed
is a zero. A count of bytes is a natural; `MAX_SAFE_BYTES` bounds it.
-/

namespace Tensorplate

namespace Platform

/-- `BudgetDomainName`. -/
inductive BudgetDomainName
  | sharedPool
  | guestRam
  | deviceVram
  deriving DecidableEq, Repr

/-- `UnavailableReason`. -/
inductive UnavailableReason
  | sourceUnavailable
  | missingField
  | unsupported
  deriving DecidableEq, Repr

/-- `ByteObservation`. -/
inductive ByteObservation
  | available (bytes : ℕ)
  | unavailable (reason : UnavailableReason)
  deriving DecidableEq, Repr

/-- `bytes`. -/
def ByteObservation.bytes : ByteObservation → Option ℕ
  | .available bytes => some bytes
  | .unavailable _ => none

/-- `ProcessRole`. -/
inductive ProcessRole
  | agent
  | servingWorker
  | pythonSidecar
  | external
  deriving DecidableEq, Repr

/-- `ProcessMemory`. -/
structure ProcessMemory where
  pid : ℕ
  role : ProcessRole
  bytes : ByteObservation
  deriving DecidableEq, Repr

/-- `ProcessAggregate`. -/
inductive ProcessAggregate
  | available (processes : List ProcessMemory)
  | unavailable (reason : UnavailableReason)
  deriving DecidableEq, Repr

/-- `DomainMemory`. -/
structure DomainMemory where
  capacity : ByteObservation
  available : ByteObservation
  used : ByteObservation
  driverReserved : ByteObservation
  deriving DecidableEq, Repr

/-- `consumed_bytes`. -/
def DomainMemory.consumedBytes (m : DomainMemory) : Option ℕ := do
  let capacity ← m.capacity.bytes
  let available ← m.available.bytes
  if available ≤ capacity then some (capacity - available) else none

/-- `MemorySource`. -/
inductive MemorySource
  | proc
  | nvidiaSmiXml
  | nvidiaSmiCsv
  deriving DecidableEq, Repr

/-- `ObservationAvailability`. -/
inductive ObservationAvailability
  | available
  | partially
  | unavailable
  deriving DecidableEq, Repr

def schemaVersion : String := "0.1"

def maxSafeBytes : ℕ := 2 ^ 53 - 1

/-- `MemoryObservation`. -/
structure MemoryObservation where
  schemaVersion : String
  domain : BudgetDomainName
  source : MemorySource
  availability : ObservationAvailability
  allocated : ByteObservation
  reserved : ByteObservation
  processAggregate : ProcessAggregate
  deviceAggregate : DomainMemory
  sampledMonotonicNs : ℕ
  deriving DecidableEq, Repr

/-- `check_bytes`. -/
def checkBytes (value : ByteObservation) : Except String Unit :=
  if value.bytes.any (maxSafeBytes < ·) then
    .error "memory reading exceeds the exact JSON integer range"
  else .ok ()

/-- The processes of a sample, each with a positive pid no earlier one has. -/
def checkProcesses (pids : List ℕ) : List ProcessMemory → Except String Unit
  | [] => .ok ()
  | process :: rest => do
    if process.pid = 0 ∨ process.pid ∈ pids then
      .error "process IDs must be positive and unique within a sample"
    checkBytes process.bytes
    checkProcesses (process.pid :: pids) rest

namespace MemoryObservation

/-- `observed_availability`. -/
def observedAvailability (o : MemoryObservation) : ObservationAvailability :=
  let totals := o.deviceAggregate
  let processesReady := match o.processAggregate with
    | .available processes => processes.all fun p => p.bytes.bytes.isSome
    | .unavailable _ => false
  let processesSeen := match o.processAggregate with
    | .available _ => true
    | .unavailable _ => false
  if totals.capacity.bytes.isSome && totals.available.bytes.isSome && processesReady then
    .available
  else if [totals.capacity, totals.available, totals.used, totals.driverReserved].any
      (fun v => v.bytes.isSome) || processesSeen then .partially
  else .unavailable

/-- The sources that measure a domain. -/
def measures : MemorySource → BudgetDomainName → Bool
  | .proc, .guestRam => true
  | .nvidiaSmiXml, .deviceVram => true
  | .nvidiaSmiCsv, .deviceVram => true
  | _, _ => false

/-- `validate`. -/
def validate (o : MemoryObservation) : Except String Unit := do
  if o.schemaVersion ≠ Platform.schemaVersion then
    .error "unsupported memory observation schema_version"
  if !measures o.source o.domain then
    .error "memory observation source does not measure this domain"
  if maxSafeBytes < o.sampledMonotonicNs then
    .error "sample timestamp exceeds the exact JSON integer range"
  let totals := o.deviceAggregate
  [o.allocated, o.reserved, totals.capacity, totals.available, totals.used,
    totals.driverReserved].forM checkBytes
  if totals.capacity.bytes = some 0 then
    .error "measured capacity must be positive"
  if let some capacity := totals.capacity.bytes then
    if [totals.available, totals.used, totals.driverReserved].any
        fun reading => reading.bytes.any (capacity < ·) then
      .error "domain reading exceeds measured capacity"
  if o.allocated.bytes.isSome || o.reserved.bytes.isSome then
    .error "this source does not report allocator allocated or reserved bytes"
  if let .available processes := o.processAggregate then
    checkProcesses [] processes
  if o.availability ≠ o.observedAvailability then
    .error "sample availability disagrees with its readings"

/-- `MemoryObservation::new`. -/
def new (domain : BudgetDomainName) (source : MemorySource) (deviceAggregate : DomainMemory)
    (processAggregate : ProcessAggregate) (sampledMonotonicNs : ℕ) :
    Except String MemoryObservation := do
  let value : MemoryObservation :=
    { schemaVersion := Platform.schemaVersion
      domain := domain
      source := source
      availability := .unavailable
      allocated := .unavailable .unsupported
      reserved := .unavailable .unsupported
      processAggregate := processAggregate
      deviceAggregate := deviceAggregate
      sampledMonotonicNs := sampledMonotonicNs }
  let value := { value with availability := value.observedAvailability }
  value.validate
  return value

end MemoryObservation

end Platform

end Tensorplate
