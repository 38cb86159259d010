import Tensorplate.Lib.Word
import Tensorplate.Platform.Model.MemoryObservation

/-!
# The memory sampler

`run_samples` wakes at every multiple of an interval, takes one sample of
each domain and folds it into the peaks of a report. The commands and
files it reads, the clock and the output are operations on one state of
the surroundings, which may answer anything. Durations are naturals, in
nanoseconds. What the parsers read in a capture is a parameter.
-/

namespace Tensorplate

namespace Platform

open Lib

/-- `MemorySampleError`. -/
inductive MemorySampleError
  | oversized
  | malformed (reason : String)
  | deviceCount
  | inconsistent (reason : String)
  deriving DecidableEq, Repr

/-- `SamplingError`, what the system reports of a write being its text. -/
inductive SamplingError
  | invalid (reason : String)
  | sample (error : MemorySampleError)
  | io (text : String)
  | json (text : String)
  deriving DecidableEq, Repr

/-- `ProcessIdentity`. -/
structure ProcessIdentity where
  pid : ℕ
  role : ProcessRole
  deriving DecidableEq, Repr

/-- A second, and a day, in nanoseconds. -/
def second : ℕ := 1000000000

def day : ℕ := 86400 * second

/-- The durations there are: `u64` seconds and the nanoseconds beside them. -/
def durationEnd : ℕ := word64 * second

/-- `u64::try_from`. -/
def toU64 (value : ℕ) (reason : String) : Except SamplingError ℕ :=
  if value < word64 then .ok value else .error (.invalid reason)

/-- `div_ceil`. -/
def divCeil (a b : ℕ) : ℕ := if a % b = 0 then a / b else a / b + 1

/-- `SamplePlan`, as `new` accepts it. -/
structure SamplePlan where
  interval : ℕ
  duration : ℕ
  domains : List BudgetDomainName
  processes : List ProcessIdentity
  positive : 0 < interval ∧ 0 < duration
  withinDay : duration ≤ day ∧ interval ≤ day
  ticks : divCeil duration interval ≤ 100000
  selected : domains ≠ [] ∧ domains.length ≤ 2 ∧ .sharedPool ∉ domains ∧ domains.Nodup
  attributed : processes.length ≤ 64 ∧ (∀ p ∈ processes, p.pid ≠ 0) ∧
    (processes.map ProcessIdentity.pid).Nodup

/-- `SamplePlan::new`. -/
def SamplePlan.new (interval duration : ℕ) (domains : List BudgetDomainName)
    (processes : List ProcessIdentity) : Except SamplingError SamplePlan :=
  if hspan : (0 < interval ∧ 0 < duration) ∧ (duration ≤ day ∧ interval ≤ day) ∧
      divCeil duration interval ≤ 100000 then
    if hdomains : domains ≠ [] ∧ domains.length ≤ 2 ∧ .sharedPool ∉ domains ∧ domains.Nodup then
      if hprocesses : processes.length ≤ 64 ∧ (∀ p ∈ processes, p.pid ≠ 0) ∧
          (processes.map ProcessIdentity.pid).Nodup then
        .ok ⟨interval, duration, domains, processes, hspan.1, hspan.2.1, hspan.2.2, hdomains,
          hprocesses⟩
      else .error (.invalid "at most 64 unique positive attribution PIDs required")
    else .error (.invalid "select guest_ram and/or device_vram exactly once")
  else .error (.invalid "positive interval/duration, at most 24 hours and 100000 ticks required")

/-- **The surroundings of a run**: `MemoryIo`, `SampleClock` and the output,
as operations on their state. -/
structure Surroundings (σ : Type) where
  nvidiaSmi : List String → σ → Option String × σ
  procFile : String → σ → Option String × σ
  elapsed : σ → ℕ × σ
  sleepUntil : ℕ → σ → σ
  /-- The record of a sample and the line end behind it. -/
  write : MemoryObservation → σ → Except SamplingError Unit × σ
  flush : σ → Except SamplingError Unit × σ

/-- What the parsers read in a capture: the totals and the processes. -/
structure Captures where
  proc : Option String → List (ProcessIdentity × Option String) →
    Except MemorySampleError (DomainMemory × ProcessAggregate)
  nvidiaSmiXml : String → List ProcessIdentity →
    Except MemorySampleError (DomainMemory × ProcessAggregate)
  nvidiaSmiCsv : String → Option String → List ProcessIdentity →
    Except MemorySampleError (DomainMemory × ProcessAggregate)

/-- `observation`. -/
def observation (domain : BudgetDomainName) (source : MemorySource)
    (read : DomainMemory × ProcessAggregate) (at' : ℕ) :
    Except MemorySampleError MemoryObservation :=
  (MemoryObservation.new domain source read.1 read.2 at').mapError .inconsistent

/-- `parse_proc_memory`. -/
def parseProcMemory (c : Captures) (meminfo : Option String)
    (statuses : List (ProcessIdentity × Option String)) (at' : ℕ) :
    Except MemorySampleError MemoryObservation := do
  observation .guestRam .proc (← c.proc meminfo statuses) at'

/-- `parse_nvidia_smi_xml`. -/
def parseNvidiaSmiXml (c : Captures) (text : String) (identities : List ProcessIdentity)
    (at' : ℕ) : Except MemorySampleError MemoryObservation := do
  observation .deviceVram .nvidiaSmiXml (← c.nvidiaSmiXml text identities) at'

/-- `parse_nvidia_smi_csv`. -/
def parseNvidiaSmiCsv (c : Captures) (gpu : String) (apps : Option String)
    (identities : List ProcessIdentity) (at' : ℕ) : Except MemorySampleError MemoryObservation := do
  observation .deviceVram .nvidiaSmiCsv (← c.nvidiaSmiCsv gpu apps identities) at'

/-- A run's computations. -/
abbrev Sampler (σ : Type) := StateT σ (Except SamplingError)

/-- An operation that answers. -/
def Sampler.ask {σ α : Type} (operation : σ → α × σ) : Sampler σ α :=
  fun s => .ok (operation s)

/-- An operation that may fail. -/
def Sampler.attempt {σ : Type} (operation : σ → Except SamplingError Unit × σ) : Sampler σ Unit :=
  fun s => (operation s).1.map fun _ => ((), (operation s).2)

/-- What is decided without the surroundings. -/
def Sampler.decided {σ α : Type} (result : Except SamplingError α) : Sampler σ α :=
  fun s => result.map fun a => (a, s)

section Collector

variable {σ : Type} (w : Surroundings σ) (c : Captures)

/-- The status files of the attributed processes, in their order. -/
def procStatuses : List ProcessIdentity → σ → List (ProcessIdentity × Option String) × σ
  | [], s => ([], s)
  | p :: rest, s =>
    let (status, s) := w.procFile ("/proc/" ++ toString p.pid ++ "/status") s
    let (statuses, s) := procStatuses rest s
    ((p, status) :: statuses, s)

/-- The last part of `collect`: a failed read is a sample without readings. -/
def orUnavailable (domain : BudgetDomainName) (source : MemorySource) (at' : ℕ)
    (result : Except MemorySampleError MemoryObservation) :
    Except MemorySampleError MemoryObservation :=
  match result with
  | .ok sample => .ok sample
  | .error _ =>
    let missing := ByteObservation.unavailable .sourceUnavailable
    (MemoryObservation.new domain source ⟨missing, missing, missing, missing⟩
      (.unavailable .sourceUnavailable) at').mapError .inconsistent

/-- The XML capture, where it is read and nothing is missing in it. -/
def wholeXml (processes : List ProcessIdentity) (at' : ℕ) (xml : Option String) :
    Option MemoryObservation := do
  match parseNvidiaSmiXml c (← xml) processes at' with
  | .ok sample => if sample.availability = .available then some sample else none
  | .error _ => none

/-- `collect`. -/
def collect (domain : BudgetDomainName) (processes : List ProcessIdentity) (at' : ℕ) (s : σ) :
    Except MemorySampleError MemoryObservation × σ :=
  match domain with
  | .guestRam =>
    let (meminfo, s) := w.procFile "/proc/meminfo" s
    let (statuses, s) := procStatuses w processes s
    (orUnavailable domain .proc at' (parseProcMemory c meminfo statuses at'), s)
  | .deviceVram =>
    let (xml, s) := w.nvidiaSmi ["-q", "-x"] s
    match wholeXml c processes at' xml with
    | some sample => (.ok sample, s)
    | none =>
      let (gpu, s) := w.nvidiaSmi
        ["--query-gpu=uuid,memory.total,memory.used,memory.free", "--format=csv"] s
      let (apps, s) := w.nvidiaSmi
        ["--query-compute-apps=gpu_uuid,pid,used_memory", "--format=csv"] s
      (orUnavailable domain .nvidiaSmiCsv at'
        (parseNvidiaSmiCsv c (gpu.getD "") apps processes at'), s)
  | .sharedPool => (.error (.inconsistent "unsupported sampling domain"), s)

end Collector

/-! ## The peaks -/

/-- `SamplePeak`. -/
structure SamplePeak where
  maxBytes : Option ℕ := none
  availableSamples : ℕ := 0
  deriving DecidableEq, Repr

/-- `SamplePeak::observe`. -/
def SamplePeak.observe (peak : SamplePeak) : Option ℕ → SamplePeak
  | none => peak
  | some bytes =>
    { maxBytes := some (match peak.maxBytes with
        | none => bytes
        | some old => max old bytes)
      availableSamples := peak.availableSamples + 1 }

/-- `ProcessPeak`. -/
structure ProcessPeak where
  pid : ℕ
  role : ProcessRole
  peak : SamplePeak := {}
  deriving DecidableEq, Repr

/-- `DomainPeak`. -/
structure DomainPeak where
  domain : BudgetDomainName
  consumed : SamplePeak := {}
  processes : List ProcessPeak
  deriving DecidableEq, Repr

/-- The bytes a sample has for a process. -/
def MemoryObservation.processBytes (sample : MemoryObservation) (pid : ℕ) (role : ProcessRole) :
    Option ℕ :=
  match sample.processAggregate with
  | .available processes =>
    (processes.find? fun p => p.pid = pid ∧ p.role = role).bind fun p => p.bytes.bytes
  | .unavailable _ => none

/-- What `observe` does to the peaks of the sample's domain. -/
def DomainPeak.observe (d : DomainPeak) (sample : MemoryObservation) : DomainPeak :=
  { d with
    consumed := d.consumed.observe sample.deviceAggregate.consumedBytes
    processes := d.processes.map fun p =>
      { p with peak := p.peak.observe (sample.processBytes p.pid p.role) } }

/-- `WindowReducer`. -/
abbrev WindowReducer := List DomainPeak

namespace WindowReducer

/-- `WindowReducer::new`. -/
def new (plan : SamplePlan) : WindowReducer :=
  plan.domains.map fun domain =>
    { domain := domain, processes := plan.processes.map fun p => { pid := p.pid, role := p.role } }

/-- The first peaks of the sample's domain take the sample. -/
def place (sample : MemoryObservation) : WindowReducer → Option WindowReducer
  | [] => none
  | d :: rest =>
    if d.domain = sample.domain then some (d.observe sample :: rest)
    else (place sample rest).map (d :: ·)

/-- `WindowReducer::observe`. -/
def observe (reducer : WindowReducer) (sample : MemoryObservation) :
    Except SamplingError WindowReducer := do
  sample.validate.mapError .invalid
  match place sample reducer with
  | none => .error (.invalid "unexpected sample domain")
  | some reducer => .ok reducer

end WindowReducer

/-- `SampleReport`. -/
structure SampleReport where
  expectedTicks : ℕ
  completedTicks : ℕ
  lateTicks : ℕ
  complete : Bool
  domains : List DomainPeak
  deriving DecidableEq, Repr

/-- `WindowReducer::finish`. -/
def WindowReducer.finish (reducer : WindowReducer) (expectedTicks completedTicks lateTicks : ℕ) :
    SampleReport where
  expectedTicks := expectedTicks
  completedTicks := completedTicks
  lateTicks := lateTicks
  complete := 0 < expectedTicks && expectedTicks = completedTicks && lateTicks = 0 &&
    reducer.all fun d => d.consumed.availableSamples = expectedTicks &&
      d.processes.all fun p => p.peak.availableSamples = expectedTicks
  domains := reducer

/-! ## The loop -/

/-- A batch: the time it was due, the times of its start and its end, and
its samples. Kept for the reader; the code writes the samples out. -/
structure Batch where
  due : ℕ
  started : ℕ
  ended : ℕ
  samples : List MemoryObservation
  deriving DecidableEq, Repr

/-- The variables of the loop, and the batches that completed. -/
structure Sampling where
  next : ℕ := 0
  completed : ℕ := 0
  late : ℕ := 0
  reducer : WindowReducer
  batches : List Batch := []

section Loop

variable {σ : Type} (w : Surroundings σ) (c : Captures) (plan : SamplePlan)

/-- One sample of each domain, observed and written. -/
def sampleDomains (timestamp : ℕ) : List BudgetDomainName → WindowReducer →
    Sampler σ (WindowReducer × List MemoryObservation)
  | [], reducer => pure (reducer, [])
  | domain :: rest, reducer => do
    let sample ← Sampler.ask (collect w c domain plan.processes timestamp)
    let sample ← Sampler.decided (sample.mapError .sample)
    let reducer ← Sampler.decided (reducer.observe sample)
    Sampler.attempt (w.write sample)
    let (reducer, samples) ← sampleDomains timestamp rest reducer
    return (reducer, sample :: samples)

/-- `elapsed` since the start of the run. -/
def sinceStart (start : ℕ) : Sampler σ ℕ := do
  let reading ← Sampler.ask w.elapsed
  Sampler.decided (if start ≤ reading then .ok (reading - start)
    else .error (.invalid "clock moved backwards"))

/-- The time at which the batch after one is due. -/
def dueAfter (next after : ℕ) : Except SamplingError ℕ :=
  let next := next + plan.interval
  if after > next then toU64 (divCeil after plan.interval * plan.interval) "clock overflow"
  else .ok next

/-- One round of the loop; `none` is its end. -/
def sampleRound (start : ℕ) (v : Sampling) : Sampler σ (Option Sampling) := do
  let wake ← Sampler.decided (if start + min v.next plan.duration < durationEnd then
    .ok (start + min v.next plan.duration) else .error (.invalid "clock overflow"))
  Sampler.ask fun s => ((), w.sleepUntil wake s)
  let elapsed ← sinceStart w start
  if elapsed ≥ plan.duration then return none
  let timestamp ← Sampler.decided (toU64 elapsed "timestamp overflow")
  let (reducer, samples) ← sampleDomains w c plan timestamp plan.domains v.reducer
  Sampler.attempt w.flush
  let after ← sinceStart w start
  let next ← Sampler.decided (dueAfter plan v.next after)
  return some
    { next := next
      completed := v.completed + 1
      late := if after ≥ min (v.next + plan.interval) plan.duration then v.late + 1 else v.late
      reducer := reducer
      batches := v.batches ++ [⟨v.next, elapsed, after, samples⟩] }

/-- The loop, for at most `fuel` rounds; `none` where it has not ended. -/
def sampleLoop (start : ℕ) : ℕ → Sampling → Sampler σ (Option Sampling)
  | 0, _ => pure none
  | fuel + 1, v => do
    match ← sampleRound w c plan start v with
    | none => return some v
    | some v => sampleLoop start fuel v

/-- `run_samples`, for at most `fuel` rounds: the report, and the batches it
is about. -/
def runSamples (fuel : ℕ) : Sampler σ (Option (SampleReport × List Batch)) := do
  let start ← Sampler.ask w.elapsed
  match ← sampleLoop w c plan start fuel { reducer := .new plan } with
  | none => return none
  | some v =>
    let expected ← Sampler.decided (toU64 (divCeil plan.duration plan.interval) "tick overflow")
    return some (v.reducer.finish expected v.completed v.late, v.batches)

end Loop

end Platform

end Tensorplate
