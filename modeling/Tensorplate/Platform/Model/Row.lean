import Tensorplate.Protocol.Model.JsonNumbers

/-!
# Platform support rows

A row is a claim about one platform: its operating system, processor,
accelerator and the machine shape its evidence was recorded on. Reading a
row document is the only way to a row, and a document that violates an
invariant of the row is refused.
-/

namespace Tensorplate

namespace Platform

/-- `CpuArchitecture`. -/
inductive CpuArchitecture
  | x86_64
  | arm64
  deriving DecidableEq, Repr

/-- `CpuVendor`. -/
inductive CpuVendor
  | amd
  | intel
  | apple
  | nvidiaSoc
  deriving DecidableEq, Repr

/-- `Partitioning`. -/
inductive Partitioning
  | unsupported
  | notApplicable
  deriving DecidableEq, Repr

/-- `AcceleratorMatchPolicy`. -/
inductive AcceleratorMatchPolicy
  | exact
  | family
  deriving DecidableEq, Repr

/-- `PackageChannel`. -/
inductive PackageChannel
  | apt
  | homebrew
  deriving DecidableEq, Repr

/-- `GateValue`. -/
inductive GateValue
  | loadBearing
  | contextOnly
  | notApplicable
  deriving DecidableEq, Repr

/-- `Provenance`. -/
inductive Provenance
  | recorded
  | specAuthored
  deriving DecidableEq, Repr

/-- `ValidationEnvironmentKind`. -/
inductive ValidationEnvironmentKind
  | physical
  | cloudInstance
  deriving DecidableEq, Repr

/-- `SupportLevel`. -/
inductive SupportLevel
  | production
  | preview
  | experimental
  | planned
  deriving DecidableEq, Repr

/-- `OsIdentity`. -/
structure OsIdentity where
  name : String
  version : String
  imageIdentity : Option String := none
  deriving DecidableEq, Repr

/-- `StackComponent`. -/
structure StackComponent where
  component : String
  version : String
  deriving DecidableEq, Repr

/-- `CpuIdentity`. -/
structure CpuIdentity where
  architecture : CpuArchitecture
  vendors : List CpuVendor
  deriving DecidableEq, Repr

/-- `covers_vendor`. -/
def CpuIdentity.coversVendor (cpu : CpuIdentity) (vendor : CpuVendor) : Bool :=
  cpu.vendors.contains vendor

/-- `Accelerator`. -/
structure Accelerator where
  family : String
  sku : String
  matchPolicy : AcceleratorMatchPolicy := .exact
  memoryBytes : UInt64
  /-- The property name of a memory profile. -/
  memoryProfile : String
  deviceCount : UInt32 := 1
  partitioning : Partitioning
  deriving DecidableEq, Repr

/-- `RunnerProfilePackageSet`. -/
structure RunnerProfilePackageSet where
  runnerProfile : String
  packages : List String
  deriving DecidableEq, Repr

/-- `BackendPackageSet`. -/
structure BackendPackageSet where
  backendPath : String
  channel : PackageChannel
  packages : List String
  runnerProfiles : List RunnerProfilePackageSet := []
  deriving DecidableEq, Repr

/-- `ModelClassRowRef`. -/
structure ModelClassRowRef where
  modelClassRow : String
  supportLevel : SupportLevel
  deriving DecidableEq, Repr

/-- `Gate`. -/
structure Gate where
  gate : GateValue
  reason : Option String := none
  deriving DecidableEq, Repr

/-- `GateSemantics`. -/
structure GateSemantics where
  thermal : Gate
  power : Gate
  throttle : Gate
  memory : Gate
  gpuUtilization : Gate
  deriving DecidableEq, Repr

/-- `signals`. -/
def GateSemantics.signals (gates : GateSemantics) : List (String × Gate) :=
  [("thermal", gates.thermal), ("power", gates.power), ("throttle", gates.throttle),
    ("memory", gates.memory), ("gpu_utilization", gates.gpuUtilization)]

/-- `ValidationEnvironment`. -/
structure ValidationEnvironment where
  kind : ValidationEnvironmentKind
  identity : String
  machineType : Option String := none
  deriving DecidableEq, Repr

/-- `WireRow`: a row document as it is decoded, not validated yet. -/
structure WireRow where
  schemaVersion : String
  rowId : String
  os : OsIdentity
  kernelDriverStack : List StackComponent
  cpu : CpuIdentity
  accelerator : Option Accelerator := none
  backendPackages : List BackendPackageSet
  modelClassRows : List ModelClassRowRef
  gateSemantics : GateSemantics
  supportLevel : SupportLevel
  provenance : Provenance
  validationEnvironment : ValidationEnvironment
  /-- The location of the evidence. -/
  evidence : Option String := none
  deriving DecidableEq, Repr

/-- `PlatformRegistryError`. -/
inductive PlatformRegistryError
  | malformed (detail : String)
  | missingSchemaVersion
  | unsupportedSchemaVersion (got expected : String)
  | invalidNumberLexeme (token : List Char) (reason : String)
  | invalidRow (reason : String)
  | invalidRoadmapTarget (reason : String)
  | inDocument (path : String) (source : PlatformRegistryError)
  | ambiguousRegistry (detail : String)
  /-- An arithmetic overflow, which ends the process. -/
  | overflow
  deriving DecidableEq, Repr

/-! ## Validation -/

/-- The `White_Space` characters, which `str::trim` removes. -/
def isWhitespace (c : Char) : Bool :=
  (9 ≤ c.toNat && c.toNat ≤ 13) || c.toNat = 32 || c.toNat = 0x85 || c.toNat = 0xA0 ||
    c.toNat = 0x1680 || (0x2000 ≤ c.toNat && c.toNat ≤ 0x200A) || c.toNat = 0x2028 ||
    c.toNat = 0x2029 || c.toNat = 0x202F || c.toNat = 0x205F || c.toNat = 0x3000

/-- `blank`. -/
def blank (s : String) : Bool := s.toList.all isWhitespace

/-- A segment of an identifier. -/
def isSegment (segment : List Char) : Bool :=
  !segment.isEmpty && segment.all fun c => c.isLower || c.isDigit

/-- The segments between the separators. -/
def isCanonicalWith (separator : Char) (id : String) : Bool :=
  !id.toList.isEmpty && (id.toList.splitOn separator).all isSegment

/-- `is_canonical_identifier`. -/
def isCanonicalIdentifier (id : String) : Bool := isCanonicalWith '-' id

/-- `is_canonical_snake_identifier`. -/
def isCanonicalSnakeIdentifier (id : String) : Bool := isCanonicalWith '_' id

/-- A check of the row, refused with its reason. -/
def check (holds : Bool) (reason : String) : Except PlatformRegistryError Unit :=
  if holds then .ok () else .error (.invalidRow reason)

/-- The packages of a path or a profile. -/
def namesPackages (packages : List String) : Bool :=
  !packages.isEmpty && !packages.any blank

/-- The runner profiles of a path, with the profiles listed before. -/
def validateProfiles : List String → List RunnerProfilePackageSet → Except PlatformRegistryError Unit
  | _, [] => .ok ()
  | seen, profile :: rest => do
    check (isCanonicalSnakeIdentifier profile.runnerProfile) "runner_profile must be lower_snake_case"
    check (!seen.contains profile.runnerProfile)
      "a backend path must not list a runner profile twice"
    check (namesPackages profile.packages)
      "each runner profile must list at least one non-empty package"
    check (decide profile.packages.Nodup) "a runner profile's packages must not repeat"
    validateProfiles (profile.runnerProfile :: seen) rest

/-- A backend path. -/
def validateBackend (set : BackendPackageSet) : Except PlatformRegistryError Unit := do
  check (isCanonicalSnakeIdentifier set.backendPath) "backend_path must be lower_snake_case"
  check (namesPackages set.packages)
    "each backend path must declare at least one non-empty package"
  validateProfiles [] set.runnerProfiles

/-- The gate of a signal. -/
def validateGate (signal : String) (gate : Gate) : Except PlatformRegistryError Unit :=
  match gate.gate, gate.reason with
  | .notApplicable, none =>
    .error (.invalidRow (signal ++ " `not_applicable` requires a reason"))
  | .notApplicable, some reason =>
    check (!blank reason) "a `not_applicable` gate reason must not be blank"
  | _, some reason => check (!blank reason) "a gate reason must not be blank"
  | _, none => .ok ()

/-- The accelerator, and the row it is on. -/
def validateAccelerator (row : WireRow) (accelerator : Accelerator) :
    Except PlatformRegistryError Unit := do
  check (!(blank accelerator.family || blank accelerator.sku))
    "accelerator family and sku must not be blank"
  check (accelerator.memoryBytes ≠ 0) "accelerator memory_bytes must be positive"
  check (accelerator.deviceCount ≠ 0) "accelerator device_count must be positive"
  if accelerator.matchPolicy = .family then do
    check (accelerator.sku = accelerator.family)
      "a family-matched accelerator row uses its family as the display SKU"
    check (row.cpu.vendors = [.apple] && accelerator.family = "Apple M-series")
      "family accelerator matching is defined only for Apple M-series rows"
    check (row.supportLevel = .preview && row.provenance = .specAuthored && row.evidence.isNone)
      "a family-matched accelerator row must remain Preview, spec_authored, and evidence-free"
  else pure ()

/-- What the support level asks of the row. -/
def validateLevel (row : WireRow) : Except PlatformRegistryError Unit :=
  match row.supportLevel with
  | .production => check row.evidence.isSome "Production rows must declare evidence"
  | .planned => do
    check row.evidence.isNone "Planned rows carry no evidence claim"
    check (row.provenance = .specAuthored)
      "Planned rows are spec-authored until their hardware is validated"
    check row.modelClassRows.isEmpty
      "Planned rows carry no model-class claims until they are validated"
  | .preview | .experimental => .ok ()

/-- `validate`. -/
def validate (row : WireRow) : Except PlatformRegistryError Unit := do
  check (isCanonicalIdentifier row.rowId)
    "row_id must be lowercase alphanumeric segments separated by single hyphens"
  check (!(blank row.os.name || blank row.os.version)) "os name and version must not be empty"
  check (!row.os.imageIdentity.any blank) "os image_identity must not be empty when present"
  row.kernelDriverStack.forM fun component => do
    check (isCanonicalSnakeIdentifier component.component)
      "stack component identifiers must be lower_snake_case"
    check (!blank component.version) "stack component versions must not be empty"
  check (!row.backendPackages.isEmpty) "a row must declare at least one backend path"
  row.backendPackages.forM validateBackend
  check (!row.modelClassRows.any fun r => blank r.modelClassRow)
    "model_class_row pointers must not be empty"
  row.gateSemantics.signals.forM fun (signal, gate) => validateGate signal gate
  check (!blank row.validationEnvironment.identity)
    "validation_environment identity must not be empty"
  check (row.validationEnvironment.machineType.all isCanonicalIdentifier)
    ("validation_environment machine_type must be lowercase alphanumeric segments " ++
      "separated by single hyphens")
  check (!row.evidence.any blank) "evidence location must not be empty"
  match row.accelerator with
  | some accelerator => validateAccelerator row accelerator
  | none =>
    check (row.gateSemantics.gpuUtilization.gate = .notApplicable)
      "a row without an accelerator must record gpu_utilization as not_applicable"
  check (!row.cpu.vendors.isEmpty) "a row must name at least one CPU vendor"
  check (decide row.cpu.vendors.Nodup) "cpu vendors must be unique"
  check (!(row.accelerator.isSome && row.cpu.vendors.length ≠ 1))
    "a row with an accelerator names exactly one CPU vendor"
  validateLevel row

/-- `PlatformSupportRow`: a row that was validated. -/
structure PlatformSupportRow extends WireRow where
  valid : validate toWireRow = .ok ()
  deriving DecidableEq

/-- `from_wire`. -/
def PlatformSupportRow.fromWire (wire : WireRow) :
    Except PlatformRegistryError PlatformSupportRow :=
  match h : validate wire with
  | .ok () => .ok ⟨wire, h⟩
  | .error e => .error e

/-- `PLATFORM_SUPPORT_ROW_SCHEMA_VERSION`. -/
def platformSupportRowSchemaVersion : String := "0.1"

/-- `RoadmapTarget`. Only its identifier is looked at. -/
structure RoadmapTarget where
  targetId : String
  deriving DecidableEq, Repr

/-- The documents' decoder: the JSON library with the derived field rules,
and the roadmap documents as a whole. -/
structure Decoder where
  /-- The `schema_version` of a document, where it is a string. -/
  schemaVersion : List Char → Except String (Option String)
  wireRow : List Char → Except String WireRow
  roadmapTarget : String → Except PlatformRegistryError RoadmapTarget

/-- `from_json`. -/
def PlatformSupportRow.fromJson (decoder : Decoder) (json : String) :
    Except PlatformRegistryError PlatformSupportRow := do
  let canonical ← match Protocol.canonicalizeByteLexemes json.toList with
    | some (.ok canonical) => .ok canonical
    | some (.error (token, reason)) => .error (.invalidNumberLexeme token reason)
    | none => .error .overflow
  let observed ← (decoder.schemaVersion canonical).mapError .malformed
  match observed with
  | none => .error .missingSchemaVersion
  | some observed =>
    if observed ≠ platformSupportRowSchemaVersion then
      .error (.unsupportedSchemaVersion observed platformSupportRowSchemaVersion)
    else do
      let wire ← (decoder.wireRow canonical).mapError .malformed
      fromWire wire

end Platform

end Tensorplate
