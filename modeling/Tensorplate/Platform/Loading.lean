import Tensorplate.Platform.Model.Registry

/-!
# What a registry is loaded from

A registry is accepted where every document reads and no two rows are
ambiguous or share their identifier, and its rows are those of the
documents in the order of their identifiers. Neither depends on the order
of the documents.
-/

namespace Tensorplate

namespace Platform

open Lib

variable {decoder : Decoder}

/-! ## Ambiguity -/

theorem overlaps_comm (a b : AcceptedShapes) : a.overlaps b = b.overlaps a := by
  cases a <;> cases b <;> simp [AcceptedShapes.overlaps, eq_comm]

/-- The vendors of two rows meet. -/
theorem any_coversVendor {left right : CpuIdentity} :
    left.vendors.any right.coversVendor = true ↔
      ∃ vendor, vendor ∈ left.vendors ∧ vendor ∈ right.vendors := by
  simp [CpuIdentity.coversVendor, List.any_eq_true]

/-- The two rows name no different images. -/
def SameImage (left right : PlatformSupportRow) : Prop :=
  ∀ a b, left.os.imageIdentity = some a → right.os.imageIdentity = some b → a = b

/-- The two rows' accelerators are matched by one machine, at one priority. -/
def SameAccelerator (left right : PlatformSupportRow) : Prop :=
  match left.accelerator, right.accelerator with
  | some a, some b => a.deviceCount = b.deviceCount ∧ a.matchPolicy = b.matchPolicy ∧
      match a.matchPolicy with
      | .exact => a.sku = b.sku
      | .family => a.family = b.family
  | none, none => True
  | _, _ => False

theorem rest_iff {left right : PlatformSupportRow} :
    rowsAreAmbiguous.rest left right = true ↔
      (acceptedShapes left).overlaps (acceptedShapes right) = true ∧
        SameAccelerator left right := by
  unfold rowsAreAmbiguous.rest SameAccelerator
  cases (acceptedShapes left).overlaps (acceptedShapes right) with
  | false => simp
  | true =>
    rcases left.accelerator with _ | a <;> rcases right.accelerator with _ | b
    · simp
    · simp
    · simp
    · by_cases hcount : a.deviceCount = b.deviceCount
      · rcases ha : a.matchPolicy <;> rcases hb : b.matchPolicy <;> simp [hcount, ha, hb]
      · simp [hcount]

/-- **What makes two rows ambiguous.** -/
theorem rowsAreAmbiguous_iff {left right : PlatformSupportRow} :
    rowsAreAmbiguous left right = true ↔
      left.cpu.architecture = right.cpu.architecture ∧
      (∃ vendor, vendor ∈ left.cpu.vendors ∧ vendor ∈ right.cpu.vendors) ∧
      (left.os.name = right.os.name ∧ left.os.version = right.os.version) ∧
      SameImage left right ∧
      (acceptedShapes left).overlaps (acceptedShapes right) = true ∧
      SameAccelerator left right := by
  rw [← any_coversVendor, ← rest_iff]
  unfold rowsAreAmbiguous SameImage
  by_cases harch : left.cpu.architecture = right.cpu.architecture
  · by_cases hvendor : left.cpu.vendors.any right.cpu.coversVendor = true
    · by_cases hos : left.os.name = right.os.name ∧ left.os.version = right.os.version
      · rcases left.os.imageIdentity with _ | a <;> rcases right.os.imageIdentity with _ | b
        · simp [harch, hvendor, hos]
        · simp [harch, hvendor, hos]
        · simp [harch, hvendor, hos]
        · by_cases himage : a = b
          · simp [harch, hvendor, hos, himage]
          · simp [harch, hvendor, hos, himage]
      · have : left.os.name ≠ right.os.name ∨ left.os.version ≠ right.os.version := by tauto
        simp [harch, hvendor, hos, this]
    · simp [harch, hvendor]
  · simp [harch]

theorem sameAccelerator_symm {left right : PlatformSupportRow} (h : SameAccelerator left right) :
    SameAccelerator right left := by
  unfold SameAccelerator at *
  rcases hl : left.accelerator with _ | a <;> rcases hr : right.accelerator with _ | b <;>
    rw [hl, hr] at h
  · trivial
  · exact h
  · exact h
  · obtain ⟨hcount, hpolicy, hname⟩ := h
    refine ⟨hcount.symm, hpolicy.symm, ?_⟩
    rw [hpolicy] at hname
    rcases hb : b.matchPolicy with _ | _ <;> rw [hb] at hname <;> exact hname.symm

theorem rowsAreAmbiguous_symm {left right : PlatformSupportRow}
    (h : rowsAreAmbiguous left right = true) : rowsAreAmbiguous right left = true := by
  rw [rowsAreAmbiguous_iff] at h ⊢
  obtain ⟨harch, ⟨vendor, hl, hr⟩, ⟨hname, hversion⟩, himage, hshapes, haccelerator⟩ := h
  refine ⟨harch.symm, ⟨vendor, hr, hl⟩, ⟨hname.symm, hversion.symm⟩, ?_, ?_,
    sameAccelerator_symm haccelerator⟩
  · intro a b ha hb
    exact (himage b a hb ha).symm
  · rw [overlaps_comm]
    exact hshapes

/-! ## Documents -/

/-- Two rows that one registry may hold. -/
def Compatible (left right : PlatformSupportRow) : Prop :=
  rowsAreAmbiguous left right = false ∧ left.rowId ≠ right.rowId

theorem Compatible.symm {left right : PlatformSupportRow} (h : Compatible left right) :
    Compatible right left := by
  refine ⟨?_, h.2.symm⟩
  by_contra ha
  rw [Bool.not_eq_false] at ha
  have := rowsAreAmbiguous_symm ha
  rw [h.1] at this
  cases this

/-- The row of a document, where it reads. -/
def rowOf (decoder : Decoder) (document : String × String) : Option PlatformSupportRow :=
  (PlatformSupportRow.fromJson decoder document.2).toOption

/-- **One document is loaded** where it reads and its row is compatible
with those before. -/
theorem loadRow_guarded (decoder : Decoder) : Guarded (fun r : PlatformSupportRow => r.rowId)
    (loadRow decoder) (rowOf decoder) (fun _ => True) Compatible := by
  intro loaded loaded' document
  unfold loadRow rowOf Compatible
  cases hread : PlatformSupportRow.fromJson decoder document.2 with
  | error e => simp [Except.mapError, Except.toOption, bind, Except.bind]
  | ok row =>
    simp only [Except.mapError, Except.toOption, bind, Except.bind, Option.some.injEq,
      exists_eq_left', true_and]
    cases hfind : loaded.find? fun existing => rowsAreAmbiguous existing row with
    | some overlapping =>
      have hmem := List.mem_of_find?_eq_some hfind
      have hamb := List.find?_some hfind
      constructor
      · intro h
        cases h
      · rintro ⟨hall, -⟩
        have := (hall overlapping hmem).1
        rw [hamb] at this
        cases this
    | none =>
      rw [List.find?_eq_none] at hfind
      simp only [Bool.not_eq_true] at hfind
      by_cases hany : (loaded.any fun existing => decide (existing.rowId = row.rowId)) = true
      · rw [if_pos hany]
        constructor
        · intro h
          cases h
        · rintro ⟨hall, -⟩
          rw [List.any_eq_true] at hany
          obtain ⟨existing, hmem, hid⟩ := hany
          exact absurd (of_decide_eq_true hid) (hall existing hmem).2
      · rw [if_neg hany]
        rw [List.any_eq_true] at hany
        push Not at hany
        constructor
        · intro h
          refine ⟨fun existing hmem => ⟨hfind existing hmem, ?_⟩, (Except.ok.inj h).symm⟩
          intro hid
          exact hany existing hmem (decide_eq_true hid)
        · rintro ⟨-, rfl⟩
          rfl

/-! ## Roadmap targets -/

/-- The target of a document, where it reads. -/
def targetOf (decoder : Decoder) (document : String × String) : Option RoadmapTarget :=
  (decoder.roadmapTarget document.2).toOption

theorem loadTarget_guarded (decoder : Decoder) (rows : List PlatformSupportRow) :
    Guarded RoadmapTarget.targetId (loadTarget decoder rows) (targetOf decoder)
      (fun target => ∀ row ∈ rows, row.rowId ≠ target.targetId)
      (fun a b => a.targetId ≠ b.targetId) := by
  intro loaded loaded' document
  unfold loadTarget targetOf
  cases hread : decoder.roadmapTarget document.2 with
  | error e => simp [Except.mapError, Except.toOption, bind, Except.bind]
  | ok target =>
    simp only [Except.mapError, Except.toOption, bind, Except.bind, Option.some.injEq,
      exists_eq_left']
    split_ifs with hrow hold
    · rw [List.any_eq_true] at hrow
      obtain ⟨row, hmem, hid⟩ := hrow
      constructor
      · intro h
        cases h
      · rintro ⟨hall, -⟩
        exact absurd (of_decide_eq_true hid) (hall row hmem)
    · rw [List.any_eq_true] at hold
      obtain ⟨existing, hmem, hid⟩ := hold
      constructor
      · intro h
        cases h
      · rintro ⟨-, hall, -⟩
        exact absurd (of_decide_eq_true hid) (hall existing hmem)
    · rw [List.any_eq_true] at hrow hold
      push Not at hrow hold
      constructor
      · intro h
        exact ⟨fun r hr hid => hrow r hr (decide_eq_true hid),
          fun e he hid => hold e he (decide_eq_true hid), (Except.ok.inj h).symm⟩
      · rintro ⟨-, -, rfl⟩
        rfl

/-! ## Registries -/

/-- What every loaded registry is. -/
structure Loaded (registry : PlatformRegistry) : Prop where
  nonempty : registry.rows ≠ []
  compatible : registry.rows.Pairwise Compatible

theorem fromDocuments_eq_ok {rows targets : List (String × String)} {registry : PlatformRegistry} :
    PlatformRegistry.fromDocuments decoder rows targets = .ok registry ↔
      rows.foldlM (loadRow decoder) [] = .ok registry.rows ∧ registry.rows ≠ [] ∧
        targets.foldlM (loadTarget decoder registry.rows) [] = .ok registry.roadmapTargets := by
  unfold PlatformRegistry.fromDocuments
  cases hrows : rows.foldlM (loadRow decoder) [] with
  | error e => simp [bind, Except.bind]
  | ok loaded =>
    simp only [bind, Except.bind, Except.ok.injEq]
    split_ifs with hempty
    · rw [List.isEmpty_iff] at hempty
      constructor
      · intro h
        cases h
      · rintro ⟨rfl, hne, -⟩
        exact absurd hempty hne
    · rw [List.isEmpty_iff] at hempty
      cases htargets : targets.foldlM (loadTarget decoder loaded) [] with
      | error e =>
        constructor
        · intro h
          cases h
        · rintro ⟨rfl, -, h⟩
          rw [htargets] at h
          cases h
      | ok loadedTargets =>
        constructor
        · intro h
          obtain rfl := Except.ok.inj h
          exact ⟨rfl, hempty, htargets⟩
        · rintro ⟨rfl, -, h⟩
          rw [htargets] at h
          obtain rfl := Except.ok.inj h
          rfl

/-- **A loaded registry has rows, and they are compatible.** -/
theorem loaded_fromDocuments {rows targets : List (String × String)} {registry : PlatformRegistry}
    (h : PlatformRegistry.fromDocuments decoder rows targets = .ok registry) : Loaded registry := by
  obtain ⟨hrows, hne, -⟩ := fromDocuments_eq_ok.1 h
  exact ⟨hne, (loadRow_guarded decoder).pairwise Compatible.symm hrows⟩

/-- **The order of the documents does not matter.** -/
theorem fromDocuments_perm {rows rows' targets targets' : List (String × String)}
    {registry : PlatformRegistry} (hrows : rows'.Perm rows) (htargets : targets'.Perm targets)
    (h : PlatformRegistry.fromDocuments decoder rows targets = .ok registry) :
    PlatformRegistry.fromDocuments decoder rows' targets' = .ok registry := by
  rw [fromDocuments_eq_ok] at h ⊢
  obtain ⟨hr, hne, ht⟩ := h
  refine ⟨(loadRow_guarded decoder).foldlM_perm Compatible.symm (fun h => h.2) hrows hr, hne, ?_⟩
  exact (loadTarget_guarded decoder registry.rows).foldlM_perm Ne.symm id htargets ht

end Platform

end Tensorplate
