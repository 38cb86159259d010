import Mathlib.Data.String.Basic
import Tensorplate.Lib.KeyOrder
import Tensorplate.Platform.Model.Row

/-!
# The platform registry

The registry is loaded from row documents, refused as a whole where two
rows could both match one machine at the same priority, and resolves a
detected machine to a row, or to the reason why it has none.
-/

namespace Tensorplate

namespace Platform

open Lib

/-- `PlatformReason`. -/
inductive PlatformReason
  | unsupportedAcceleratorSku
  | unsupportedOsVersion
  | unsupportedCpuArch
  | unsupportedCpuVendor
  | migModeEnabled
  | missingBackendPackage
  | missingDriverRuntime
  | acceleratorRuntimeUnavailable
  | telemetryDegraded
  | rowPlannedNotValidated
  | unsupportedAcceleratorTopology
  deriving DecidableEq, Repr

/-! ## What is detected -/

/-- `DetectedArchitecture`. -/
inductive DetectedArchitecture
  | known (architecture : CpuArchitecture)
  | other (raw : String)
  deriving DecidableEq, Repr

/-- `known`. -/
def DetectedArchitecture.known? : DetectedArchitecture → Option CpuArchitecture
  | .known architecture => some architecture
  | .other _ => none

/-- `DetectedVendor`. -/
inductive DetectedVendor
  | known (vendor : CpuVendor)
  | other (raw : String)
  deriving DecidableEq, Repr

/-- `known`. -/
def DetectedVendor.known? : DetectedVendor → Option CpuVendor
  | .known vendor => some vendor
  | .other _ => none

/-- `HostIdentity`. -/
structure HostIdentity where
  architecture : DetectedArchitecture
  vendor : DetectedVendor
  osName : String
  osVersion : String
  imageIdentity : Option String := none
  machineType : Option String := none
  deriving DecidableEq, Repr

/-- `AcceleratorIdentity`. -/
structure AcceleratorIdentity where
  sku : String
  partitioned : Bool := false
  heterogeneous : Bool := false
  deviceCount : UInt32 := 1
  deriving DecidableEq, Repr

/-- `DetectedPlatform`. -/
structure DetectedPlatform where
  host : HostIdentity
  accelerator : Option AcceleratorIdentity := none
  deriving DecidableEq, Repr

/-! ## Matching -/

/-- `AcceptedShapes`. -/
inductive AcceptedShapes
  | only (required : String)
  | unshaped
  | any
  deriving DecidableEq, Repr

/-- `overlaps`. -/
def AcceptedShapes.overlaps : AcceptedShapes → AcceptedShapes → Bool
  | .only _, .unshaped | .unshaped, .only _ => false
  | .only a, .only b => a = b
  | _, _ => true

/-- `admits`. -/
def AcceptedShapes.admits (machineType : Option String) : AcceptedShapes → Bool
  | .any => true
  | .only required => machineType = some required
  | .unshaped => machineType.isNone

/-- `accepted_shapes`. -/
def acceptedShapes (row : PlatformSupportRow) : AcceptedShapes :=
  match row.validationEnvironment.machineType,
      decide (row.validationEnvironment.kind = .physical) with
  | some required, _ => .only required
  | none, true => .unshaped
  | none, false => .any

/-- `environment_matches`. -/
def environmentMatches (row : PlatformSupportRow) (host : HostIdentity) : Bool :=
  (acceptedShapes row).admits host.machineType

/-- `os_matches`. -/
def osMatches (row : PlatformSupportRow) (host : HostIdentity) : Bool :=
  row.os.name = host.osName && row.os.version = host.osVersion &&
    row.os.imageIdentity.all fun required => host.imageIdentity = some required

/-- The architecture the row names. -/
def architectureMatches (row : PlatformSupportRow) (host : HostIdentity) : Bool :=
  host.architecture.known? = some row.cpu.architecture

/-- A vendor the row covers. -/
def vendorMatches (row : PlatformSupportRow) (host : HostIdentity) : Bool :=
  host.vendor.known?.any row.cpu.coversVendor

/-- `host_matches`. -/
def hostMatches (row : PlatformSupportRow) (host : HostIdentity) : Bool :=
  architectureMatches row host && vendorMatches row host && osMatches row host &&
    environmentMatches row host

/-- `topology_matches`. -/
def topologyMatches (row : PlatformSupportRow) (detected : DetectedPlatform) : Bool :=
  match row.accelerator, detected.accelerator with
  | some accelerator, some observed => accelerator.deviceCount = observed.deviceCount
  | _, _ => true

/-- What follows the family's name in the brand strings of Apple. -/
def seriesSuffixes : List (List Char) :=
  [[], [' ', 'P', 'r', 'o'], [' ', 'M', 'a', 'x'], [' ', 'U', 'l', 't', 'r', 'a']]

/-- `is_apple_m_series_sku`. -/
def isAppleMSeriesSku (sku : String) : Bool :=
  match sku.toList with
  | 'A' :: 'p' :: 'p' :: 'l' :: 'e' :: ' ' :: 'M' :: rest =>
    if (rest.takeWhile Char.isDigit).isEmpty || rest.head? = some '0' then false
    else seriesSuffixes.contains (rest.dropWhile Char.isDigit)
  | _ => false

/-- `accelerator_matches`. -/
def acceleratorMatches (row : PlatformSupportRow) (detected : DetectedPlatform) : Bool :=
  match row.accelerator, detected.accelerator with
  | some accelerator, some observed =>
    match accelerator.matchPolicy with
    | .exact => accelerator.sku = observed.sku
    | .family => accelerator.family = "Apple M-series" &&
        detected.host.vendor.known? = some .apple && isAppleMSeriesSku observed.sku
  | none, none => true
  | _, _ => false

/-- `Mismatch`, a bit for each dimension. -/
structure Mismatch where
  architecture : Bool := false
  vendor : Bool := false
  os : Bool := false
  topology : Bool := false
  accelerator : Bool := false
  environment : Bool := false
  deriving DecidableEq, Repr

namespace Mismatch

/-- `between`. -/
def between (row : PlatformSupportRow) (detected : DetectedPlatform) : Mismatch where
  architecture := !architectureMatches row detected.host
  vendor := !vendorMatches row detected.host
  os := !osMatches row detected.host
  topology := !topologyMatches row detected
  accelerator := !acceleratorMatches row detected
  environment := !environmentMatches row detected.host

/-- `is_environment_only`. -/
def isEnvironmentOnly (m : Mismatch) : Bool := m = { environment := true }

/-- `is_topology_miss`. -/
def isTopologyMiss (m : Mismatch) : Bool := { m with environment := false } = { topology := true }

/-- `host_only`. -/
def hostOnly (m : Mismatch) : Mismatch := { m with accelerator := false }

/-- `union`. -/
def union (m n : Mismatch) : Mismatch where
  architecture := m.architecture || n.architecture
  vendor := m.vendor || n.vendor
  os := m.os || n.os
  topology := m.topology || n.topology
  accelerator := m.accelerator || n.accelerator
  environment := m.environment || n.environment

/-- `count`. -/
def count (m : Mismatch) : ℕ :=
  m.architecture.toNat + m.vendor.toNat + m.os.toNat + m.topology.toNat + m.accelerator.toNat +
    m.environment.toNat

/-- `reason`. -/
def reason (m : Mismatch) : Option PlatformReason :=
  if m.architecture then some .unsupportedCpuArch
  else if m.vendor then some .unsupportedCpuVendor
  else if m.os then some .unsupportedOsVersion
  else if m.topology then some .unsupportedAcceleratorTopology
  else if m.accelerator then some .unsupportedAcceleratorSku
  else none

end Mismatch

/-! ## Loading -/

/-- `rows_are_ambiguous`. -/
def rowsAreAmbiguous (left right : PlatformSupportRow) : Bool :=
  if left.cpu.architecture ≠ right.cpu.architecture then false
  else if !left.cpu.vendors.any right.cpu.coversVendor then false
  else if left.os.name ≠ right.os.name || left.os.version ≠ right.os.version then false
  else
    match left.os.imageIdentity, right.os.imageIdentity with
    | some a, some b => if a ≠ b then false else rest
    | _, _ => rest
where
  /-- The machine shapes and the accelerators. -/
  rest : Bool :=
    if !(acceptedShapes left).overlaps (acceptedShapes right) then false
    else
      match left.accelerator, right.accelerator with
      | some a, some b =>
        if a.deviceCount ≠ b.deviceCount then false
        else
          match a.matchPolicy, b.matchPolicy with
          | .exact, .exact => a.sku = b.sku
          | .family, .family => a.family = b.family
          | .exact, .family | .family, .exact => false
      | none, none => true
      | _, _ => false

/-- `PlatformRegistry`; its maps are listed in the order of their keys. -/
structure PlatformRegistry where
  rows : List PlatformSupportRow
  roadmapTargets : List RoadmapTarget

/-- One row document of `from_documents`. -/
def loadRow (decoder : Decoder) (loaded : List PlatformSupportRow) (document : String × String) :
    Except PlatformRegistryError (List PlatformSupportRow) := do
  let row ← (PlatformSupportRow.fromJson decoder document.2).mapError (.inDocument document.1)
  match loaded.find? fun existing => rowsAreAmbiguous existing row with
  | some overlapping =>
    .error (.ambiguousRegistry ("rows `" ++ overlapping.rowId ++ "` and `" ++ row.rowId ++
      "` can both match one machine at the same priority"))
  | none =>
    if loaded.any fun existing => existing.rowId = row.rowId then
      .error (.ambiguousRegistry ("row id `" ++ row.rowId ++ "` is declared twice"))
    else .ok (insertBy (fun r => r.rowId) loaded row)

/-- One roadmap document of `from_documents`. -/
def loadTarget (decoder : Decoder) (rows : List PlatformSupportRow) (loaded : List RoadmapTarget)
    (document : String × String) : Except PlatformRegistryError (List RoadmapTarget) := do
  let target ← (decoder.roadmapTarget document.2).mapError (.inDocument document.1)
  if rows.any fun row => row.rowId = target.targetId then
    .error (.ambiguousRegistry ("roadmap target `" ++ target.targetId ++
      "` collides with a support row id"))
  else if loaded.any fun existing => existing.targetId = target.targetId then
    .error (.ambiguousRegistry "a roadmap target id is declared twice")
  else .ok (insertBy RoadmapTarget.targetId loaded target)

/-- `from_documents`: the documents with their paths. -/
def PlatformRegistry.fromDocuments (decoder : Decoder) (rows targets : List (String × String)) :
    Except PlatformRegistryError PlatformRegistry := do
  let loaded ← rows.foldlM (loadRow decoder) []
  if loaded.isEmpty then
    .error (.ambiguousRegistry "the registry declares no platform support rows")
  else do
    let loadedTargets ← targets.foldlM (loadTarget decoder loaded) []
    .ok ⟨loaded, loadedTargets⟩

/-! ## Resolution -/

/-- `RowMatch`. -/
inductive RowMatch
  | supported (row : PlatformSupportRow)
  | plannedNotValidated (row : PlatformSupportRow)
  | experimental (row : PlatformSupportRow)
  | outsideValidatedEnvironment (candidate : Option PlatformSupportRow)
  | unsupported (reason : PlatformReason)
  deriving DecidableEq

/-- `matched_row`. -/
def matchedRow (row : PlatformSupportRow) : RowMatch :=
  match row.supportLevel with
  | .planned => .plannedNotValidated row
  | .experimental => .experimental row
  | .production | .preview => .supported row

/-- The row matches by family. -/
def byFamily (row : PlatformSupportRow) : Bool :=
  row.accelerator.any fun accelerator => accelerator.matchPolicy = .family

/-- What the loop of `resolve` keeps. -/
structure Scan where
  nearestCount : ℕ := 2 ^ 32 - 1
  nearest : Mismatch := {}
  topologyMismatch : Bool := false
  exactOutsideEnvironment : List PlatformSupportRow := []
  familyOutsideEnvironment : List PlatformSupportRow := []
  familyMatch : Option PlatformSupportRow := none

/-- The mismatch joins the nearest. -/
def Scan.near (s : Scan) (m : Mismatch) : Scan :=
  if m.count < s.nearestCount then { s with nearestCount := m.count, nearest := m }
  else if m.count = s.nearestCount then { s with nearest := s.nearest.union m }
  else s

/-- The topology and the environment of a row. -/
def Scan.note (s : Scan) (row : PlatformSupportRow) (m : Mismatch) : Scan :=
  let s := { s with topologyMismatch := s.topologyMismatch || m.isTopologyMiss }
  if m.isEnvironmentOnly then
    if byFamily row then
      { s with familyOutsideEnvironment := s.familyOutsideEnvironment ++ [row] }
    else { s with exactOutsideEnvironment := s.exactOutsideEnvironment ++ [row] }
  else s

/-- One row of the loop; an error is the answer that ends it. -/
def Scan.visit (detected : DetectedPlatform) (s : Scan) (row : PlatformSupportRow) :
    Except RowMatch Scan :=
  let mismatch := Mismatch.between row detected
  let s := s.note row mismatch
  if mismatch.count = 0 then
    if byFamily row then .ok { s with familyMatch := some row }
    else .error (matchedRow row)
  else .ok (s.near mismatch)

/-- The row of a list that has no other. -/
def sole : List PlatformSupportRow → Option PlatformSupportRow
  | [only] => some only
  | _ => none

/-- The answer behind the loop. -/
def Scan.answer (s : Scan) : RowMatch :=
  match s.familyMatch with
  | some row => matchedRow row
  | none =>
    let outside :=
      if s.exactOutsideEnvironment.isEmpty then s.familyOutsideEnvironment
      else s.exactOutsideEnvironment
    if !outside.isEmpty then .outsideValidatedEnvironment (sole outside)
    else if s.topologyMismatch then .unsupported .unsupportedAcceleratorTopology
    else .unsupported (s.nearest.reason.getD .unsupportedAcceleratorSku)

namespace PlatformRegistry

/-- `candidates`. -/
def candidates (registry : PlatformRegistry) (host : HostIdentity) : List PlatformSupportRow :=
  registry.rows.filter fun row => hostMatches row host

/-- `resolve`. -/
def resolve (registry : PlatformRegistry) (detected : DetectedPlatform) : RowMatch :=
  if detected.accelerator.any AcceleratorIdentity.partitioned then .unsupported .migModeEnabled
  else if detected.accelerator.any AcceleratorIdentity.heterogeneous then
    .unsupported .unsupportedAcceleratorTopology
  else
    match registry.rows.foldlM (Scan.visit detected) {} with
    | .error found => found
    | .ok s => s.answer

end PlatformRegistry

/-- `ProfileSelection`. -/
inductive ProfileSelection
  | candidates (rows : List PlatformSupportRow)
  | outsideValidatedEnvironment
  | noMatch (reason : PlatformReason)
  deriving DecidableEq

/-- `select_profile`. -/
def PlatformRegistry.selectProfile (registry : PlatformRegistry) (host : HostIdentity) :
    ProfileSelection :=
  let candidates := registry.candidates host
  if !candidates.isEmpty then .candidates candidates
  else
    let mismatches := (registry.rows.map fun row =>
      (Mismatch.between row { host := host }).hostOnly).filter fun m => 0 < m.count
    match (mismatches.map Mismatch.count).min? with
    | none => .noMatch .unsupportedOsVersion
    | some nearest =>
      let folded := (mismatches.filter fun m => m.count = nearest).foldl Mismatch.union {}
      match folded.reason with
      | none => .outsideValidatedEnvironment
      | some reason => .noMatch reason

end Platform

end Tensorplate
