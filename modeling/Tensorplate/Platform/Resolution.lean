import Mathlib.Data.Finset.Max
import Tensorplate.Platform.Loading

/-!
# What a machine resolves to

The rows of a registry that match a machine are at most one by its exact
identity and one by its family, since two would have been ambiguous at
load. What `resolve` answers is then a function of the rows as a set: the
exact row, the family row, the machine shape, the device count, or the
broadest dimension that the nearest rows differ in.
-/

namespace Tensorplate

namespace Platform

variable {row left right : PlatformSupportRow} {detected : DetectedPlatform}

/-! ## Dimensions -/

/-- What a row and a machine may differ in, broadest first. -/
inductive Dimension
  | architecture
  | vendor
  | os
  | topology
  | accelerator
  | environment
  deriving DecidableEq, Repr

/-- The bit of a dimension. -/
def Mismatch.has (m : Mismatch) : Dimension → Bool
  | .architecture => m.architecture
  | .vendor => m.vendor
  | .os => m.os
  | .topology => m.topology
  | .accelerator => m.accelerator
  | .environment => m.environment

/-- The place of a dimension among the reasons. -/
def Dimension.rank : Dimension → ℕ
  | .architecture => 0
  | .vendor => 1
  | .os => 2
  | .topology => 3
  | .accelerator => 4
  | .environment => 5

/-- The reason that names a dimension. A machine shape has none. -/
def Dimension.reason : Dimension → Option PlatformReason
  | .architecture => some .unsupportedCpuArch
  | .vendor => some .unsupportedCpuVendor
  | .os => some .unsupportedOsVersion
  | .topology => some .unsupportedAcceleratorTopology
  | .accelerator => some .unsupportedAcceleratorSku
  | .environment => none

/-- The row differs from the machine in a dimension. -/
def Differs (detected : DetectedPlatform) (row : PlatformSupportRow) (d : Dimension) : Prop :=
  (Mismatch.between row detected).has d = true

/-- The row has no mismatch. -/
def Matches (detected : DetectedPlatform) (row : PlatformSupportRow) : Prop :=
  ∀ d, ¬ Differs detected row d

/-- The row differs in the machine shape and in nothing else. -/
def ShapeOnly (detected : DetectedPlatform) (row : PlatformSupportRow) : Prop :=
  ∀ d, Differs detected row d ↔ d = .environment

/-- The row differs in the device count, and otherwise at most in the
machine shape. -/
def MissesCount (detected : DetectedPlatform) (row : PlatformSupportRow) : Prop :=
  Differs detected row .topology ∧
    ∀ d, Differs detected row d → d = .topology ∨ d = .environment

/-- How many dimensions a row differs in. -/
def distance (detected : DetectedPlatform) (row : PlatformSupportRow) : ℕ :=
  (Mismatch.between row detected).count

theorem Mismatch.ext_has {m n : Mismatch} (h : ∀ d, m.has d = n.has d) : m = n := by
  obtain ⟨a, b, c, d, e, f⟩ := m
  obtain ⟨a', b', c', d', e', f'⟩ := n
  have h₁ : a = a' := h .architecture
  have h₂ : b = b' := h .vendor
  have h₃ : c = c' := h .os
  have h₄ : d = d' := h .topology
  have h₅ : e = e' := h .accelerator
  have h₆ : f = f' := h .environment
  rw [h₁, h₂, h₃, h₄, h₅, h₆]

@[simp] theorem Mismatch.has_union (m n : Mismatch) (d : Dimension) :
    (m.union n).has d = (m.has d || n.has d) := by
  cases d <;> rfl

theorem Mismatch.count_eq_zero {m : Mismatch} : m.count = 0 ↔ ∀ d, m.has d = false := by
  constructor
  · intro h d
    unfold count at h
    simp only [Nat.add_eq_zero_iff, Bool.toNat_eq_zero] at h
    obtain ⟨⟨⟨⟨⟨ha, hv⟩, ho⟩, ht⟩, hs⟩, he⟩ := h
    cases d <;> assumption
  · intro h
    have : m = {} := Mismatch.ext_has fun d => (h d).trans (by cases d <;> rfl)
    rw [this]
    rfl

theorem matches_iff : Matches detected row ↔ distance detected row = 0 := by
  unfold Matches distance Differs
  rw [Mismatch.count_eq_zero]
  simp only [Bool.not_eq_true]

theorem isEnvironmentOnly_iff :
    (Mismatch.between row detected).isEnvironmentOnly = true ↔ ShapeOnly detected row := by
  unfold Mismatch.isEnvironmentOnly ShapeOnly Differs
  rw [decide_eq_true_eq]
  constructor
  · intro h d
    rw [h]
    cases d <;> simp [Mismatch.has]
  · intro h
    refine Mismatch.ext_has fun d => ?_
    rw [Bool.eq_iff_iff, h d]
    cases d <;> simp [Mismatch.has]

theorem isTopologyMiss_iff :
    (Mismatch.between row detected).isTopologyMiss = true ↔ MissesCount detected row := by
  unfold Mismatch.isTopologyMiss MissesCount Differs
  rw [decide_eq_true_eq]
  generalize Mismatch.between row detected = m
  constructor
  · intro h
    have hfields : ∀ d, ({ m with environment := false } : Mismatch).has d =
        ({ topology := true } : Mismatch).has d := fun d => by rw [h]
    refine ⟨hfields .topology, fun d hd => ?_⟩
    cases d with
    | topology => exact Or.inl rfl
    | environment => exact Or.inr rfl
    | architecture => exact absurd ((hfields .architecture).symm.trans hd) (by decide)
    | vendor => exact absurd ((hfields .vendor).symm.trans hd) (by decide)
    | os => exact absurd ((hfields .os).symm.trans hd) (by decide)
    | accelerator => exact absurd ((hfields .accelerator).symm.trans hd) (by decide)
  · rintro ⟨htopology, honly⟩
    have hoff : ∀ d, d ≠ .topology → d ≠ .environment → m.has d = false := by
      intro d ht he
      by_contra hd
      rw [Bool.not_eq_false] at hd
      rcases honly d hd with h | h
      · exact ht h
      · exact he h
    refine Mismatch.ext_has fun d => ?_
    cases d with
    | topology => exact htopology
    | environment => rfl
    | architecture => exact hoff .architecture (by decide) (by decide)
    | vendor => exact hoff .vendor (by decide) (by decide)
    | os => exact hoff .os (by decide) (by decide)
    | accelerator => exact hoff .accelerator (by decide) (by decide)

/-- **The reason names the first dimension** of those that have one. -/
theorem reason_first {m : Mismatch} {d : Dimension} (hd : m.has d = true) (he : d ≠ .environment) :
    ∃ d₀ r, d₀.reason = some r ∧ m.reason = some r ∧ m.has d₀ = true ∧
      ∀ d', d'.rank < d₀.rank → m.has d' = false := by
  obtain ⟨a, v, o, t, s, e⟩ := m
  cases a
  · cases v
    · cases o
      · cases t
        · cases s
          · exfalso
            cases d <;> simp_all [Mismatch.has]
          · refine ⟨.accelerator, _, rfl, rfl, rfl, fun d' h => ?_⟩
            cases d' <;> simp_all [Dimension.rank, Mismatch.has]
        · refine ⟨.topology, _, rfl, rfl, rfl, fun d' h => ?_⟩
          cases d' <;> simp_all [Dimension.rank, Mismatch.has]
      · refine ⟨.os, _, rfl, rfl, rfl, fun d' h => ?_⟩
        cases d' <;> simp_all [Dimension.rank, Mismatch.has]
    · refine ⟨.vendor, _, rfl, rfl, rfl, fun d' h => ?_⟩
      cases d' <;> simp_all [Dimension.rank, Mismatch.has]
  · refine ⟨.architecture, _, rfl, rfl, rfl, fun d' h => ?_⟩
    cases d' <;> simp_all [Dimension.rank, Mismatch.has]

/-! ## Two rows and one machine -/

theorem Matches.host (h : Matches detected row) : hostMatches row detected.host = true := by
  have ha := h .architecture
  have hv := h .vendor
  have ho := h .os
  have he := h .environment
  simp only [Differs, Mismatch.has, Mismatch.between, Bool.not_eq_true', Bool.not_eq_false] at *
  unfold hostMatches
  rw [ha, hv, ho, he]
  rfl

theorem overlaps_of_admits {a b : AcceptedShapes} {machineType : Option String}
    (ha : a.admits machineType = true) (hb : b.admits machineType = true) :
    a.overlaps b = true := by
  cases a with
  | any => cases b <;> rfl
  | only x =>
    cases b with
    | any => rfl
    | only y =>
      simp only [AcceptedShapes.admits, decide_eq_true_eq] at ha hb
      rw [ha] at hb
      simpa [AcceptedShapes.overlaps] using hb
    | unshaped =>
      simp only [AcceptedShapes.admits, decide_eq_true_eq] at ha hb
      rw [ha] at hb
      cases hb
  | unshaped =>
    cases b with
    | any => rfl
    | unshaped => rfl
    | only y =>
      simp only [AcceptedShapes.admits, decide_eq_true_eq] at ha hb
      rw [hb] at ha
      cases ha

/-- Rows of one priority that match one accelerator are ambiguous in it. -/
theorem sameAccelerator_of_matches (hl : acceleratorMatches left detected = true)
    (hr : acceleratorMatches right detected = true) (htl : topologyMatches left detected = true)
    (htr : topologyMatches right detected = true) (hfamily : byFamily left = byFamily right) :
    SameAccelerator left right := by
  unfold acceleratorMatches at hl hr
  unfold topologyMatches at htl htr
  unfold byFamily at hfamily
  unfold SameAccelerator
  rcases hd : detected.accelerator with _ | o
  · rcases hal : left.accelerator with _ | a
    · rcases har : right.accelerator with _ | b
      · trivial
      · rw [har, hd] at hr
        cases hr
    · rw [hal, hd] at hl
      cases hl
  · rcases hal : left.accelerator with _ | a
    · rw [hal, hd] at hl
      cases hl
    rcases har : right.accelerator with _ | b
    · rw [har, hd] at hr
      cases hr
    simp only [hal, har, hd, Option.any_some, decide_eq_true_eq] at hl hr htl htr hfamily ⊢
    refine ⟨htl.trans htr.symm, ?_⟩
    rcases hpa : a.matchPolicy <;> rcases hpb : b.matchPolicy <;>
      simp only [hpa, hpb, Bool.and_eq_true, decide_eq_true_eq] at hl hr hfamily ⊢
    · exact ⟨trivial, hl.trans hr.symm⟩
    · simp at hfamily
    · simp at hfamily
    · exact ⟨trivial, hl.1.1.trans hr.1.1.symm⟩

/-- **Two rows of one priority that match one machine are ambiguous.** -/
theorem ambiguous_of_matches (hl : Matches detected left) (hr : Matches detected right)
    (hfamily : byFamily left = byFamily right) : rowsAreAmbiguous left right = true := by
  have hl' := fun d => hl d
  have hr' := fun d => hr d
  simp only [Differs, Bool.not_eq_true] at hl' hr'
  have hla := hl' .architecture
  have hlv := hl' .vendor
  have hlo := hl' .os
  have hlt := hl' .topology
  have hls := hl' .accelerator
  have hle := hl' .environment
  have hra := hr' .architecture
  have hrv := hr' .vendor
  have hro := hr' .os
  have hrt := hr' .topology
  have hrs := hr' .accelerator
  have hre := hr' .environment
  simp only [Mismatch.has, Mismatch.between, Bool.not_eq_false'] at *
  rw [rowsAreAmbiguous_iff]
  refine ⟨?_, ?_, ?_, ?_, overlaps_of_admits hle hre,
    sameAccelerator_of_matches hls hrs hlt hrt hfamily⟩
  · unfold architectureMatches at hla hra
    rw [decide_eq_true_eq] at hla hra
    rw [hla] at hra
    exact Option.some.inj hra
  · unfold vendorMatches at hlv hrv
    rw [Option.any_eq_true] at hlv hrv
    obtain ⟨vendor, hv, hlc⟩ := hlv
    obtain ⟨vendor', hv', hrc⟩ := hrv
    rw [hv] at hv'
    obtain rfl := Option.some.inj hv'
    simp only [CpuIdentity.coversVendor, List.contains_eq_mem, decide_eq_true_eq] at hlc hrc
    exact ⟨vendor, hlc, hrc⟩
  · simp only [osMatches, Bool.and_eq_true, decide_eq_true_eq] at hlo hro
    exact ⟨hlo.1.1.trans hro.1.1.symm, hlo.1.2.trans hro.1.2.symm⟩
  · simp only [osMatches, Bool.and_eq_true, decide_eq_true_eq] at hlo hro
    intro a b ha hb
    have h₁ := hlo.2
    have h₂ := hro.2
    rw [ha] at h₁
    rw [hb] at h₂
    simp only [Option.all_some, decide_eq_true_eq] at h₁ h₂
    rw [h₁] at h₂
    exact Option.some.inj h₂

/-- **At most one row of a priority matches a machine.** -/
theorem Loaded.unique {registry : PlatformRegistry} (h : Loaded registry)
    (hl : left ∈ registry.rows) (hr : right ∈ registry.rows) (hml : Matches detected left)
    (hmr : Matches detected right) (hfamily : byFamily left = byFamily right) : left = right := by
  by_contra hne
  have : Std.Symm Compatible := ⟨fun _ _ => Compatible.symm⟩
  have hcompatible : Compatible left right := h.compatible.forall hl hr hne
  have hambiguous := ambiguous_of_matches hml hmr hfamily
  rw [hcompatible.1] at hambiguous
  cases hambiguous

/-! ## The loop -/

/-- The row differs in the machine shape only, and matches by family or
does not. -/
def outsideShape (detected : DetectedPlatform) (family : Bool) (row : PlatformSupportRow) : Bool :=
  (Mismatch.between row detected).isEnvironmentOnly && (byFamily row == family)

theorem outsideShape_iff {family : Bool} :
    outsideShape detected family row = true ↔ ShapeOnly detected row ∧ byFamily row = family := by
  unfold outsideShape
  rw [Bool.and_eq_true, isEnvironmentOnly_iff, beq_iff_eq]

theorem distance_le (detected : DetectedPlatform) (row : PlatformSupportRow) :
    distance detected row ≤ 6 := by
  unfold distance Mismatch.count
  have hle : ∀ b : Bool, b.toNat ≤ 1 := Bool.toNat_le
  have ha := hle (Mismatch.between row detected).architecture
  have hv := hle (Mismatch.between row detected).vendor
  have ho := hle (Mismatch.between row detected).os
  have ht := hle (Mismatch.between row detected).topology
  have hs := hle (Mismatch.between row detected).accelerator
  have he := hle (Mismatch.between row detected).environment
  omega

/-- What the loop knows of the rows it has seen. -/
structure Scanned (detected : DetectedPlatform) (seen : List PlatformSupportRow) (s : Scan) :
    Prop where
  exact : ∀ row ∈ seen, Matches detected row → byFamily row = true
  family : ∀ row, s.familyMatch = some row → row ∈ seen ∧ Matches detected row
  noFamily : s.familyMatch = none → ∀ row ∈ seen, ¬ Matches detected row
  topology : s.topologyMismatch = true ↔ ∃ row ∈ seen, MissesCount detected row
  exactOutside : s.exactOutsideEnvironment = seen.filter (outsideShape detected false)
  familyOutside : s.familyOutsideEnvironment = seen.filter (outsideShape detected true)
  near : ∀ row ∈ seen, ¬ Matches detected row → s.nearestCount ≤ distance detected row
  nearest : ∀ d, s.nearest.has d = true ↔ ∃ row ∈ seen, ¬ Matches detected row ∧
    distance detected row = s.nearestCount ∧ Differs detected row d
  attained : s.nearestCount = 2 ^ 32 - 1 ∨
    ∃ row ∈ seen, ¬ Matches detected row ∧ distance detected row = s.nearestCount

variable {seen : List PlatformSupportRow} {s s' : Scan}

theorem scanned_nil (detected : DetectedPlatform) : Scanned detected [] {} where
  exact := by simp
  family := by simp
  noFamily := by simp
  topology := by simp
  exactOutside := rfl
  familyOutside := rfl
  near := by simp
  nearest d := by cases d <;> simp [Mismatch.has]
  attained := Or.inl rfl

/-- What the loop notes of a row, whether it matches or not. -/
theorem note_spec (detected : DetectedPlatform) (s : Scan) (row : PlatformSupportRow) :
    let s' := s.note row (Mismatch.between row detected)
    s'.familyMatch = s.familyMatch ∧ s'.nearestCount = s.nearestCount ∧
      s'.nearest = s.nearest ∧
      s'.topologyMismatch =
        (s.topologyMismatch || (Mismatch.between row detected).isTopologyMiss) ∧
      s'.exactOutsideEnvironment =
        s.exactOutsideEnvironment ++ [row].filter (outsideShape detected false) ∧
      s'.familyOutsideEnvironment =
        s.familyOutsideEnvironment ++ [row].filter (outsideShape detected true) := by
  unfold Scan.note outsideShape
  simp only [List.filter_singleton]
  cases henv : (Mismatch.between row detected).isEnvironmentOnly with
  | false => simp
  | true => cases hfamily : byFamily row <;> simp

/-- The nearest rows, with one more that does not match. -/
theorem Scanned.nearNext (h : Scanned detected seen s) (hrow : ¬ Matches detected row)
    {n : Scan} (hcount : n.nearestCount = s.nearestCount) (hnearest : n.nearest = s.nearest) :
    (∀ r ∈ seen ++ [row], ¬ Matches detected r →
        (n.near (Mismatch.between row detected)).nearestCount ≤ distance detected r) ∧
      (∀ d, (n.near (Mismatch.between row detected)).nearest.has d = true ↔
        ∃ r ∈ seen ++ [row], ¬ Matches detected r ∧
          distance detected r = (n.near (Mismatch.between row detected)).nearestCount ∧
          Differs detected r d) ∧
      ∃ r ∈ seen ++ [row], ¬ Matches detected r ∧
        distance detected r = (n.near (Mismatch.between row detected)).nearestCount := by
  have hsix := distance_le detected row
  have hlast : row ∈ seen ++ [row] := by simp
  have hmem : ∀ r, r ∈ seen ++ [row] ↔ r ∈ seen ∨ r = row := by simp
  unfold Scan.near
  rw [show (Mismatch.between row detected).count = distance detected row from rfl, hcount]
  rcases Nat.lt_trichotomy (distance detected row) s.nearestCount with hlt | heq | hgt
  · -- Nearer than all before: it is the nearest row alone.
    rw [if_pos hlt]
    refine ⟨fun r hr hm => ?_, fun d => ?_, row, hlast, hrow, rfl⟩
    · rcases (hmem r).1 hr with hr | rfl
      · exact hlt.le.trans (h.near r hr hm)
      · exact le_refl _
    · constructor
      · intro hd
        exact ⟨row, hlast, hrow, rfl, hd⟩
      · rintro ⟨r, hr, hm, hdist, hd⟩
        rcases (hmem r).1 hr with hr | rfl
        · have := h.near r hr hm
          change distance detected r = distance detected row at hdist
          omega
        · exact hd
  · -- As near as those before: it joins them.
    rw [if_neg (by omega), if_pos heq]
    refine ⟨fun r hr hm => ?_, fun d => ?_, row, hlast, hrow, heq⟩
    · rcases (hmem r).1 hr with hr | rfl
      · exact h.near r hr hm
      · exact heq.ge
    · dsimp only
      rw [Mismatch.has_union, Bool.or_eq_true, hnearest, h.nearest d]
      constructor
      · rintro (⟨r, hr, hm, hdist, hd⟩ | hd)
        · exact ⟨r, (hmem r).2 (Or.inl hr), hm, hdist, hd⟩
        · exact ⟨row, hlast, hrow, heq, hd⟩
      · rintro ⟨r, hr, hm, hdist, hd⟩
        rcases (hmem r).1 hr with hr | rfl
        · exact Or.inl ⟨r, hr, hm, hdist, hd⟩
        · exact Or.inr hd
  · -- Farther than those before, which there are: nothing changes.
    rw [if_neg (by omega), if_neg (by omega)]
    have hold : ∃ r ∈ seen, ¬ Matches detected r ∧ distance detected r = s.nearestCount := by
      rcases h.attained with hmax | hold
      · omega
      · exact hold
    refine ⟨fun r hr hm => ?_, fun d => ?_, ?_⟩
    · rw [hcount]
      rcases (hmem r).1 hr with hr | rfl
      · exact h.near r hr hm
      · exact hgt.le
    · rw [hnearest, h.nearest d, hcount]
      constructor
      · rintro ⟨r, hr, hm, hdist, hd⟩
        exact ⟨r, (hmem r).2 (Or.inl hr), hm, hdist, hd⟩
      · rintro ⟨r, hr, hm, hdist, hd⟩
        rcases (hmem r).1 hr with hr | rfl
        · exact ⟨r, hr, hm, hdist, hd⟩
        · omega
    · obtain ⟨r, hr, hm, hdist⟩ := hold
      exact ⟨r, (hmem r).2 (Or.inl hr), hm, hdist.trans hcount.symm⟩

/-- What `near` leaves alone. -/
theorem near_spec (s : Scan) (m : Mismatch) :
    (s.near m).familyMatch = s.familyMatch ∧ (s.near m).topologyMismatch = s.topologyMismatch ∧
      (s.near m).exactOutsideEnvironment = s.exactOutsideEnvironment ∧
      (s.near m).familyOutsideEnvironment = s.familyOutsideEnvironment := by
  unfold Scan.near
  split_ifs
  · exact ⟨rfl, rfl, rfl, rfl⟩
  · exact ⟨rfl, rfl, rfl, rfl⟩
  · exact ⟨rfl, rfl, rfl, rfl⟩

/-- **One row of the loop**: the loop ends at an exact row that matches, and
otherwise knows of one more row. -/
theorem Scanned.visit (h : Scanned detected seen s) (row : PlatformSupportRow) :
    (∃ s', s.visit detected row = .ok s' ∧ Scanned detected (seen ++ [row]) s') ∨
      s.visit detected row = .error (matchedRow row) ∧ Matches detected row ∧
        byFamily row = false := by
  obtain ⟨hfm, hnc, hn, htop, hex, hfam⟩ := note_spec detected s row
  have hmem : ∀ r, r ∈ seen ++ [row] ↔ r ∈ seen ∨ r = row := by simp
  have htopology : (s.note row (Mismatch.between row detected)).topologyMismatch = true ↔
      ∃ r ∈ seen ++ [row], MissesCount detected r := by
    rw [htop, Bool.or_eq_true, h.topology, isTopologyMiss_iff]
    constructor
    · rintro (⟨r, hr, hm⟩ | hm)
      · exact ⟨r, (hmem r).2 (Or.inl hr), hm⟩
      · exact ⟨row, (hmem row).2 (Or.inr rfl), hm⟩
    · rintro ⟨r, hr, hm⟩
      rcases (hmem r).1 hr with hr | rfl
      · exact Or.inl ⟨r, hr, hm⟩
      · exact Or.inr hm
  have hexact : (s.note row (Mismatch.between row detected)).exactOutsideEnvironment =
      (seen ++ [row]).filter (outsideShape detected false) := by
    rw [hex, h.exactOutside, List.filter_append]
  have hfamily : (s.note row (Mismatch.between row detected)).familyOutsideEnvironment =
      (seen ++ [row]).filter (outsideShape detected true) := by
    rw [hfam, h.familyOutside, List.filter_append]
  unfold Scan.visit
  dsimp only
  by_cases hmatch : Matches detected row
  · have hzero : (Mismatch.between row detected).count = 0 := matches_iff.1 hmatch
    rw [if_pos hzero]
    cases hby : byFamily row with
    | false => exact Or.inr ⟨rfl, hmatch, rfl⟩
    | true =>
      refine Or.inl ⟨_, rfl, ?_⟩
      refine ⟨fun r hr hm => ?_, fun r hr => ?_, fun hnone => ?_, htopology, hexact, hfamily,
        fun r hr hm => ?_, fun d => ?_, ?_⟩
      · rcases (hmem r).1 hr with hr | rfl
        · exact h.exact r hr hm
        · exact hby
      · obtain rfl := Option.some.inj hr
        exact ⟨(hmem row).2 (Or.inr rfl), hmatch⟩
      · cases hnone
      · rcases (hmem r).1 hr with hr | rfl
        · exact hnc.le.trans (h.near r hr hm)
        · exact absurd hmatch hm
      · dsimp only
        rw [hn, h.nearest d, hnc]
        constructor
        · rintro ⟨r, hr, hm, hdist, hd⟩
          exact ⟨r, (hmem r).2 (Or.inl hr), hm, hdist, hd⟩
        · rintro ⟨r, hr, hm, hdist, hd⟩
          rcases (hmem r).1 hr with hr | rfl
          · exact ⟨r, hr, hm, hdist, hd⟩
          · exact absurd hmatch hm
      · dsimp only
        rw [hnc]
        rcases h.attained with hmax | ⟨r, hr, hm, hdist⟩
        · exact Or.inl hmax
        · exact Or.inr ⟨r, (hmem r).2 (Or.inl hr), hm, hdist⟩
  · have hpos : (Mismatch.between row detected).count ≠ 0 :=
      fun hzero => hmatch (matches_iff.2 hzero)
    rw [if_neg hpos]
    obtain ⟨hnear, hnearest, hattained⟩ := h.nearNext hmatch hnc hn
    obtain ⟨hfm', htop', hex', hfam'⟩ := near_spec
      (s.note row (Mismatch.between row detected)) (Mismatch.between row detected)
    refine Or.inl ⟨_, rfl, ?_⟩
    refine ⟨fun r hr hm => ?_, fun r hr => ?_, fun hnone r hr => ?_, ?_, hex'.trans hexact,
      hfam'.trans hfamily, hnear, hnearest, Or.inr hattained⟩
    · rcases (hmem r).1 hr with hr | rfl
      · exact h.exact r hr hm
      · exact absurd hm hmatch
    · rw [hfm', hfm] at hr
      exact ⟨(hmem r).2 (Or.inl (h.family r hr).1), (h.family r hr).2⟩
    · rw [hfm', hfm] at hnone
      rcases (hmem r).1 hr with hr | rfl
      · exact h.noFamily hnone r hr
      · exact hmatch
    · rw [htop']
      exact htopology

/-- **The loop over all rows.** -/
theorem Scanned.run (h : Scanned detected seen s) (rows : List PlatformSupportRow) :
    (∃ s', rows.foldlM (Scan.visit detected) s = .ok s' ∧ Scanned detected (seen ++ rows) s') ∨
      ∃ row ∈ rows, rows.foldlM (Scan.visit detected) s = .error (matchedRow row) ∧
        Matches detected row ∧ byFamily row = false := by
  induction rows generalizing seen s with
  | nil =>
    refine Or.inl ⟨s, rfl, ?_⟩
    rw [List.append_nil]
    exact h
  | cons row rest ih =>
    rw [List.foldlM_cons]
    rcases h.visit row with ⟨next, hvisit, hnext⟩ | ⟨hvisit, hmatch, hexact⟩
    · rw [hvisit]
      rcases ih hnext with ⟨s', hrun, hscanned⟩ | ⟨r, hr, hrun, hmatch, hexact⟩
      · refine Or.inl ⟨s', hrun, ?_⟩
        rw [List.append_assoc] at hscanned
        exact hscanned
      · exact Or.inr ⟨r, List.mem_cons_of_mem _ hr, hrun, hmatch, hexact⟩
    · rw [hvisit]
      exact Or.inr ⟨row, List.mem_cons_self, rfl, hmatch, hexact⟩

/-! ## The answer -/

/-- No row is matched for a partitioned or a heterogeneous accelerator. -/
def Unserved (detected : DetectedPlatform) : Prop :=
  ∃ accelerator, detected.accelerator = some accelerator ∧
    (accelerator.partitioned = true ∨ accelerator.heterogeneous = true)

/-- The row is among those that differ in the fewest dimensions. -/
def Fewest (rows : List PlatformSupportRow) (detected : DetectedPlatform)
    (row : PlatformSupportRow) : Prop :=
  row ∈ rows ∧ ∀ r ∈ rows, distance detected row ≤ distance detected r

/-- The row is the only one of its rows that differs in the machine shape
alone. -/
def OnlyShape (rows : List PlatformSupportRow) (detected : DetectedPlatform) (family : Bool)
    (row : PlatformSupportRow) : Prop :=
  (row ∈ rows ∧ ShapeOnly detected row ∧ byFamily row = family) ∧
    ∀ r ∈ rows, ShapeOnly detected r → byFamily r = family → r = row

/-- The loop ends behind all rows with nothing to answer but the fallback. -/
def Scan.FallsBack (s : Scan) : Prop :=
  s.familyMatch = none ∧ s.exactOutsideEnvironment = [] ∧ s.familyOutsideEnvironment = [] ∧
    s.topologyMismatch = false ∧ s.nearest.reason = none

/-- **What a machine resolves to**, as its rows have it. -/
structure Resolved (rows : List PlatformSupportRow) (detected : DetectedPlatform)
    (answer : RowMatch) : Prop where
  unserved : Unserved detected → ∀ row, answer ≠ matchedRow row
  exact : ¬ Unserved detected → ∀ row ∈ rows, Matches detected row → byFamily row = false →
    answer = matchedRow row
  family : ¬ Unserved detected → (∀ row ∈ rows, Matches detected row → byFamily row = true) →
    ∀ row ∈ rows, Matches detected row → answer = matchedRow row
  outside : ¬ Unserved detected → (∀ row ∈ rows, ¬ Matches detected row) →
    ((∃ candidate, answer = .outsideValidatedEnvironment candidate) ↔
      ∃ row ∈ rows, ShapeOnly detected row)
  named : ∀ candidate, answer = .outsideValidatedEnvironment candidate →
    ∀ row, candidate = some row ↔ OnlyShape rows detected false row ∨
      (¬ ∃ r ∈ rows, ShapeOnly detected r ∧ byFamily r = false) ∧ OnlyShape rows detected true row
  topology : ¬ Unserved detected → (∀ row ∈ rows, ¬ Matches detected row) →
    (∀ row ∈ rows, ¬ ShapeOnly detected row) → (∃ row ∈ rows, MissesCount detected row) →
    answer = .unsupported .unsupportedAcceleratorTopology
  nearest : ¬ Unserved detected → (∀ row ∈ rows, ¬ Matches detected row) →
    (∀ row ∈ rows, ¬ ShapeOnly detected row) → (∀ row ∈ rows, ¬ MissesCount detected row) →
    ∃ d reason, d.reason = some reason ∧ answer = .unsupported reason ∧
      (∃ row, Fewest rows detected row ∧ Differs detected row d) ∧
      ∀ d', d'.rank < d.rank → ∀ row, Fewest rows detected row → ¬ Differs detected row d'

theorem matchedRow_inj (h : matchedRow left = matchedRow right) : left = right := by
  unfold matchedRow at h
  rcases hl : left.supportLevel <;> rcases hr : right.supportLevel <;>
    simp only [hl, hr] at h <;> cases h <;> rfl

theorem matchedRow_ne_outside (row : PlatformSupportRow) (candidate : Option PlatformSupportRow) :
    matchedRow row ≠ .outsideValidatedEnvironment candidate := by
  unfold matchedRow
  split <;> intro h <;> cases h

theorem matchedRow_ne_unsupported (row : PlatformSupportRow) (reason : PlatformReason) :
    matchedRow row ≠ .unsupported reason := by
  unfold matchedRow
  split <;> intro h <;> cases h

theorem resolve_unserved (registry : PlatformRegistry) (h : Unserved detected) :
    ∃ reason, registry.resolve detected = .unsupported reason := by
  obtain ⟨accelerator, hsome, hflag⟩ := h
  unfold PlatformRegistry.resolve
  rw [hsome]
  simp only [Option.any_some]
  split_ifs with hp hh
  · exact ⟨_, rfl⟩
  · exact ⟨_, rfl⟩
  · rcases hflag with hflag | hflag
    · exact absurd hflag hp
    · exact absurd hflag hh

theorem resolve_served (registry : PlatformRegistry) (h : ¬ Unserved detected) :
    registry.resolve detected =
      match registry.rows.foldlM (Scan.visit detected) {} with
      | .error found => found
      | .ok s => s.answer := by
  unfold PlatformRegistry.resolve
  have hp : detected.accelerator.any AcceleratorIdentity.partitioned = false := by
    by_contra hany
    rw [Bool.not_eq_false, Option.any_eq_true] at hany
    obtain ⟨accelerator, hsome, hflag⟩ := hany
    exact h ⟨accelerator, hsome, Or.inl hflag⟩
  have hh : detected.accelerator.any AcceleratorIdentity.heterogeneous = false := by
    by_contra hany
    rw [Bool.not_eq_false, Option.any_eq_true] at hany
    obtain ⟨accelerator, hsome, hflag⟩ := hany
    exact h ⟨accelerator, hsome, Or.inr hflag⟩
  rw [hp, hh]
  rfl

variable {rows : List PlatformSupportRow}

/-- Behind the loop, a nearest mismatch is the fold of the nearest rows. -/
theorem Scanned.fewest (h : Scanned detected rows s) (hne : rows ≠ [])
    (hnone : ∀ row ∈ rows, ¬ Matches detected row) (d : Dimension) :
    s.nearest.has d = true ↔ ∃ row, Fewest rows detected row ∧ Differs detected row d := by
  obtain ⟨first, hfirst⟩ := List.exists_mem_of_ne_nil rows hne
  have hattained : ∃ row ∈ rows, ¬ Matches detected row ∧
      distance detected row = s.nearestCount := by
    rcases h.attained with hmax | hsome
    · have hnear := h.near first hfirst (hnone first hfirst)
      have hsix := distance_le detected first
      omega
    · exact hsome
  obtain ⟨near, hnear, -, hdist⟩ := hattained
  rw [h.nearest d]
  constructor
  · rintro ⟨row, hrow, -, heq, hd⟩
    refine ⟨row, ⟨hrow, fun r hr => ?_⟩, hd⟩
    rw [heq]
    exact h.near r hr (hnone r hr)
  · rintro ⟨row, ⟨hrow, hleast⟩, hd⟩
    refine ⟨row, hrow, hnone row hrow, ?_, hd⟩
    have hle := hleast near hnear
    have hge := h.near row hrow (hnone row hrow)
    omega

/-- A row that does not match differs in more than the machine shape, or
in the machine shape alone. -/
theorem shapeOnly_or (h : ¬ Matches detected row) :
    ShapeOnly detected row ∨ ∃ d, d ≠ .environment ∧ Differs detected row d := by
  by_cases hd : ∃ d, d ≠ .environment ∧ Differs detected row d
  · exact Or.inr hd
  · left
    push Not at hd
    have hall : ∀ d, Differs detected row d → d = .environment := by
      intro d hdiff
      by_contra hne
      exact hd d hne hdiff
    intro d
    refine ⟨hall d, ?_⟩
    rintro rfl
    by_contra henv
    refine h fun d' hdiff => henv ?_
    rw [← hall d' hdiff]
    exact hdiff

/-- **Behind the loop there is a reason**, where no row matches or differs
in the machine shape alone. -/
theorem Scanned.reason (h : Scanned detected rows s) (hne : rows ≠ [])
    (hnone : ∀ row ∈ rows, ¬ Matches detected row)
    (hshape : ∀ row ∈ rows, ¬ ShapeOnly detected row) :
    ∃ d reason, d.reason = some reason ∧ s.nearest.reason = some reason ∧
      (∃ row, Fewest rows detected row ∧ Differs detected row d) ∧
      ∀ d', d'.rank < d.rank → ∀ row, Fewest rows detected row → ¬ Differs detected row d' := by
  obtain ⟨near, hnear⟩ : ∃ row, Fewest rows detected row := by
    obtain ⟨row, hrow, hleast⟩ :=
      rows.toFinset.exists_min_image (distance detected) (by simpa using hne)
    exact ⟨row, by simpa using hrow, fun r hr => hleast r (by simpa using hr)⟩
  obtain hs | ⟨d, he, hd⟩ := shapeOnly_or (hnone near hnear.1)
  · exact absurd hs (hshape near hnear.1)
  · have hhas := (h.fewest hne hnone d).2 ⟨near, hnear, hd⟩
    obtain ⟨d₀, r, hd₀, hr, hfirst, hbefore⟩ := reason_first hhas he
    refine ⟨d₀, r, hd₀, hr, (h.fewest hne hnone d₀).1 hfirst, fun d' hlt row hrow hdiff => ?_⟩
    have := (h.fewest hne hnone d').2 ⟨row, hrow, hdiff⟩
    rw [hbefore d' hlt] at this
    cases this

theorem filter_outsideShape_eq_nil {family : Bool}
    (h : rows.filter (outsideShape detected family) = []) :
    ∀ row ∈ rows, ShapeOnly detected row → byFamily row ≠ family := by
  intro row hrow hshape hfamily
  rw [List.filter_eq_nil_iff] at h
  exact h row hrow (outsideShape_iff.2 ⟨hshape, hfamily⟩)

theorem not_shapeOnly_of_filters (hexact : rows.filter (outsideShape detected false) = [])
    (hfamily : rows.filter (outsideShape detected true) = []) :
    ∀ row ∈ rows, ¬ ShapeOnly detected row := by
  intro row hrow hshape
  cases hby : byFamily row with
  | false => exact filter_outsideShape_eq_nil hexact row hrow hshape hby
  | true => exact filter_outsideShape_eq_nil hfamily row hrow hshape hby

/-- **The fallback is never reached.** -/
theorem Scanned.not_fallsBack (h : Scanned detected rows s) (hne : rows ≠ []) :
    ¬ s.FallsBack := by
  rintro ⟨hfamily, hexact, hfam, -, hreason⟩
  rw [h.exactOutside] at hexact
  rw [h.familyOutside] at hfam
  obtain ⟨d, r, -, hr, -⟩ := h.reason hne (h.noFamily hfamily)
    (not_shapeOnly_of_filters hexact hfam)
  rw [hreason] at hr
  cases hr

/-- The one row of a list without duplicates. -/
theorem filter_eq_singleton_iff {family : Bool} (hnodup : rows.Nodup) :
    rows.filter (outsideShape detected family) = [row] ↔ OnlyShape rows detected family row := by
  have hmem : ∀ r, r ∈ rows.filter (outsideShape detected family) ↔
      r ∈ rows ∧ ShapeOnly detected r ∧ byFamily r = family := by
    intro r
    rw [List.mem_filter, outsideShape_iff]
  constructor
  · intro heq
    refine ⟨(hmem row).1 (by rw [heq]; exact List.mem_singleton_self row), fun r hr hs hf => ?_⟩
    have := (hmem r).2 ⟨hr, hs, hf⟩
    rw [heq] at this
    exact List.mem_singleton.1 this
  · rintro ⟨hrow, honly⟩
    refine List.perm_singleton.1 ?_
    refine (List.perm_ext_iff_of_nodup (hnodup.filter _) (List.nodup_singleton row)).2 fun r => ?_
    rw [hmem r, List.mem_singleton]
    constructor
    · rintro ⟨hr, hs, hf⟩
      exact honly r hr hs hf
    · rintro rfl
      exact hrow

theorem sole_eq_some {outside : List PlatformSupportRow} :
    sole outside = some row ↔ outside = [row] := by
  rcases outside with _ | ⟨first, _ | ⟨second, rest⟩⟩ <;> simp [sole]

/-- The answer of a loop that saw a family row. -/
theorem answer_family (h : s.familyMatch = some row) : s.answer = matchedRow row := by
  unfold Scan.answer
  rw [h]

/-- The answer where some row differs in the machine shape alone. -/
theorem answer_outside (hnone : s.familyMatch = none) {outside : List PlatformSupportRow}
    (houtside : (if s.exactOutsideEnvironment.isEmpty then s.familyOutsideEnvironment
      else s.exactOutsideEnvironment) = outside) (hne : outside ≠ []) :
    s.answer = .outsideValidatedEnvironment (sole outside) := by
  unfold Scan.answer
  rw [hnone]
  dsimp only
  rw [houtside, if_pos]
  simpa using hne

/-- The answer where none does. -/
theorem answer_unsupported (hnone : s.familyMatch = none) (hexact : s.exactOutsideEnvironment = [])
    (hfamily : s.familyOutsideEnvironment = []) :
    s.answer = if s.topologyMismatch then .unsupported .unsupportedAcceleratorTopology
      else .unsupported (s.nearest.reason.getD .unsupportedAcceleratorSku) := by
  unfold Scan.answer
  rw [hnone, hexact, hfamily]
  rfl

/-- The answer names no row where no family row was seen. -/
theorem answer_ne_matchedRow (hnone : s.familyMatch = none) (row : PlatformSupportRow) :
    s.answer ≠ matchedRow row := by
  intro hrow
  unfold Scan.answer at hrow
  rw [hnone] at hrow
  dsimp only at hrow
  split_ifs at hrow
  all_goals first
    | exact matchedRow_ne_outside row _ hrow.symm
    | exact matchedRow_ne_unsupported row _ hrow.symm

/-- The answer of a row that matches. -/
theorem resolved_of_matches (hserved : ¬ Unserved detected) (hrow : row ∈ rows)
    (hmatch : Matches detected row)
    (hunique : ∀ r ∈ rows, Matches detected r → byFamily r = byFamily row → r = row)
    (hfirst : byFamily row = true → ∀ r ∈ rows, Matches detected r → byFamily r = true) :
    Resolved rows detected (matchedRow row) where
  unserved h := absurd h hserved
  exact _ r hr hm hexact := by
    cases hby : byFamily row with
    | false => rw [hunique r hr hm (hexact.trans hby.symm)]
    | true =>
      have := hfirst hby r hr hm
      rw [hexact] at this
      cases this
  family _ hall r hr hm := by
    have hby := hall row hrow hmatch
    rw [hunique r hr hm ((hall r hr hm).trans hby.symm)]
  outside _ hnone := absurd hmatch (hnone row hrow)
  named candidate heq := absurd heq (matchedRow_ne_outside row candidate)
  topology _ hnone := absurd hmatch (hnone row hrow)
  nearest _ hnone := absurd hmatch (hnone row hrow)

/-- The answer of rows that differ in the machine shape alone. -/
theorem resolved_of_shapeOnly (hserved : ¬ Unserved detected)
    (hnone : ∀ row ∈ rows, ¬ Matches detected row) {candidate : Option PlatformSupportRow}
    (hsome : ∃ row ∈ rows, ShapeOnly detected row)
    (hnamed : ∀ row, candidate = some row ↔ OnlyShape rows detected false row ∨
      (¬ ∃ r ∈ rows, ShapeOnly detected r ∧ byFamily r = false) ∧
        OnlyShape rows detected true row) :
    Resolved rows detected (.outsideValidatedEnvironment candidate) where
  unserved h := absurd h hserved
  exact _ r hr hm := absurd hm (hnone r hr)
  family _ _ r hr hm := absurd hm (hnone r hr)
  outside _ _ := ⟨fun _ => hsome, fun _ => ⟨candidate, rfl⟩⟩
  named c heq := by
    obtain rfl : candidate = c := RowMatch.outsideValidatedEnvironment.inj heq
    exact hnamed
  topology _ _ hno := by
    obtain ⟨r, hr, hs⟩ := hsome
    exact absurd hs (hno r hr)
  nearest _ _ hno := by
    obtain ⟨r, hr, hs⟩ := hsome
    exact absurd hs (hno r hr)

/-- **What the answer behind the loop is.** -/
theorem Scanned.resolved (h : Scanned detected rows s) (hne : rows ≠ []) (hnodup : rows.Nodup)
    (hunique : ∀ left ∈ rows, ∀ right ∈ rows, Matches detected left → Matches detected right →
      byFamily left = byFamily right → left = right)
    (hserved : ¬ Unserved detected) : Resolved rows detected s.answer := by
  cases hfamily : s.familyMatch with
  | some row =>
    obtain ⟨hrow, hmatch⟩ := h.family row hfamily
    rw [answer_family hfamily]
    exact resolved_of_matches hserved hrow hmatch
      (fun r hr hm hby => hunique r hr row hrow hm hmatch hby) (fun _ => h.exact)
  | none =>
    have hnone := h.noFamily hfamily
    by_cases hexact : rows.filter (outsideShape detected false) = []
    · have hnoexact : ¬ ∃ r ∈ rows, ShapeOnly detected r ∧ byFamily r = false := by
        rintro ⟨r, hr, hs, hf⟩
        exact filter_outsideShape_eq_nil hexact r hr hs hf
      by_cases hfam : rows.filter (outsideShape detected true) = []
      · have hshape := not_shapeOnly_of_filters hexact hfam
        rw [answer_unsupported hfamily (h.exactOutside.trans hexact)
          (h.familyOutside.trans hfam)]
        refine ⟨fun hu => absurd hu hserved, fun _ r hr hm => absurd hm (hnone r hr),
          fun _ _ r hr hm => absurd hm (hnone r hr), fun _ _ => ?_, fun c heq => ?_,
          fun _ _ _ hmiss => ?_, fun _ _ _ hmiss => ?_⟩
        · constructor
          · rintro ⟨c, heq⟩
            split_ifs at heq
          · rintro ⟨r, hr, hs⟩
            exact absurd hs (hshape r hr)
        · split_ifs at heq
        · rw [if_pos (h.topology.2 hmiss)]
        · have htopology : s.topologyMismatch = false := by
            by_contra htop
            rw [Bool.not_eq_false, h.topology] at htop
            obtain ⟨r, hr, hm⟩ := htop
            exact hmiss r hr hm
          obtain ⟨d, r, hd, hr, hsome, hfirst⟩ := h.reason hne hnone hshape
          refine ⟨d, r, hd, ?_, hsome, hfirst⟩
          rw [htopology, hr]
          rfl
      · obtain ⟨first, hfirst⟩ := List.exists_mem_of_ne_nil _ hfam
        rw [List.mem_filter, outsideShape_iff] at hfirst
        have houtside : (if s.exactOutsideEnvironment.isEmpty then s.familyOutsideEnvironment
            else s.exactOutsideEnvironment) = rows.filter (outsideShape detected true) := by
          rw [h.exactOutside, hexact, h.familyOutside]
          rfl
        rw [answer_outside hfamily houtside hfam]
        refine resolved_of_shapeOnly hserved hnone ⟨first, hfirst.1, hfirst.2.1⟩ fun row => ?_
        rw [sole_eq_some, filter_eq_singleton_iff hnodup]
        constructor
        · intro honly
          exact Or.inr ⟨hnoexact, honly⟩
        · rintro (honly | ⟨-, honly⟩)
          · exact absurd ⟨row, honly.1⟩ hnoexact
          · exact honly
    · obtain ⟨first, hfirst⟩ := List.exists_mem_of_ne_nil _ hexact
      rw [List.mem_filter, outsideShape_iff] at hfirst
      have houtside : (if s.exactOutsideEnvironment.isEmpty then s.familyOutsideEnvironment
          else s.exactOutsideEnvironment) = rows.filter (outsideShape detected false) := by
        rw [h.exactOutside, if_neg]
        simpa using hexact
      rw [answer_outside hfamily houtside hexact]
      refine resolved_of_shapeOnly hserved hnone ⟨first, hfirst.1, hfirst.2.1⟩ fun row => ?_
      rw [sole_eq_some, filter_eq_singleton_iff hnodup]
      constructor
      · intro honly
        exact Or.inl honly
      · rintro (honly | ⟨hno, -⟩)
        · exact honly
        · exact absurd ⟨first, hfirst.1, hfirst.2⟩ hno

theorem Loaded.nodup {registry : PlatformRegistry} (h : Loaded registry) : registry.rows.Nodup :=
  h.compatible.imp fun hc heq => hc.2 (congrArg (fun r => r.rowId) heq)

/-- **Every machine resolves to what the rows have for it.** -/
theorem Loaded.resolved {registry : PlatformRegistry} (h : Loaded registry)
    (detected : DetectedPlatform) :
    Resolved registry.rows detected (registry.resolve detected) := by
  by_cases hserved : Unserved detected
  · obtain ⟨reason, hreason⟩ := resolve_unserved registry hserved
    rw [hreason]
    refine ⟨fun _ row heq => matchedRow_ne_unsupported row reason heq.symm,
      fun hs => absurd hserved hs, fun hs => absurd hserved hs, fun hs => absurd hserved hs,
      fun c heq => ?_, fun hs => absurd hserved hs, fun hs => absurd hserved hs⟩
    cases heq
  · rw [resolve_served registry hserved]
    have hunique : ∀ left ∈ registry.rows, ∀ right ∈ registry.rows, Matches detected left →
        Matches detected right → byFamily left = byFamily right → left = right :=
      fun left hl right hr hml hmr hby => h.unique hl hr hml hmr hby
    rcases (scanned_nil detected).run registry.rows with ⟨s, hrun, hscanned⟩ |
      ⟨row, hrow, hrun, hmatch, hexact⟩
    · rw [hrun]
      exact hscanned.resolved h.nonempty h.nodup hunique hserved
    · rw [hrun]
      refine resolved_of_matches hserved hrow hmatch
        (fun r hr hm hby => hunique r hr row hrow hm hmatch hby) fun hby => ?_
      rw [hexact] at hby
      cases hby

/-- **A matched row is a candidate** of the host. -/
theorem resolve_mem_candidates {registry : PlatformRegistry} (h : Loaded registry)
    (hrow : registry.resolve detected = matchedRow row) :
    row ∈ registry.candidates detected.host := by
  have hserved : ¬ Unserved detected := fun hu => (h.resolved detected).unserved hu row hrow
  rw [resolve_served registry hserved] at hrow
  rcases (scanned_nil detected).run registry.rows with ⟨s, hrun, hscanned⟩ |
    ⟨r, hr, hrun, hmatch, -⟩
  · rw [hrun] at hrow
    dsimp only at hrow
    cases hfamily : s.familyMatch with
    | some r =>
      rw [answer_family hfamily] at hrow
      obtain rfl := matchedRow_inj hrow
      obtain ⟨hr, hmatch⟩ := hscanned.family r hfamily
      exact List.mem_filter.2 ⟨hr, hmatch.host⟩
    | none => exact absurd hrow (answer_ne_matchedRow hfamily row)
  · rw [hrun] at hrow
    obtain rfl := matchedRow_inj hrow
    exact List.mem_filter.2 ⟨hr, hmatch.host⟩

theorem selectProfile_of_mem {registry : PlatformRegistry} {host : HostIdentity}
    (h : row ∈ registry.candidates host) :
    registry.selectProfile host = .candidates (registry.candidates host) := by
  unfold PlatformRegistry.selectProfile
  dsimp only
  rw [if_pos]
  have hne := List.ne_nil_of_mem h
  simpa using hne

/-- The loop of a loaded registry never ends at the fallback. -/
theorem Loaded.not_fallsBack {registry : PlatformRegistry} (h : Loaded registry) {s : Scan}
    (hrun : registry.rows.foldlM (Scan.visit detected) {} = .ok s) : ¬ s.FallsBack := by
  rcases (scanned_nil detected).run registry.rows with ⟨s', hrun', hscanned⟩ | ⟨r, -, hrun', -⟩
  · rw [hrun] at hrun'
    obtain rfl := Except.ok.inj hrun'
    exact hscanned.not_fallsBack h.nonempty
  · rw [hrun] at hrun'
    cases hrun'

/-- **A registry that loads resolves every machine to one answer.** Its
documents are accepted in every order, and the order changes no answer. -/
theorem resolve_determined {decoder : Decoder} {documents targets : List (String × String)}
    {registry : PlatformRegistry}
    (h : PlatformRegistry.fromDocuments decoder documents targets = .ok registry) :
    (∀ detected,
      (∀ left ∈ registry.rows, ∀ right ∈ registry.rows, Matches detected left →
        Matches detected right → byFamily left = byFamily right → left = right) ∧
      Resolved registry.rows detected (registry.resolve detected) ∧
      (∀ s, registry.rows.foldlM (Scan.visit detected) {} = .ok s → ¬ s.FallsBack) ∧
      ∀ row, registry.resolve detected = matchedRow row →
        row ∈ registry.candidates detected.host ∧
        registry.selectProfile detected.host = .candidates (registry.candidates detected.host)) ∧
    ∀ documents' targets', documents'.Perm documents → targets'.Perm targets →
      ∃ registry', PlatformRegistry.fromDocuments decoder documents' targets' = .ok registry' ∧
        ∀ detected, registry'.resolve detected = registry.resolve detected := by
  have hloaded := loaded_fromDocuments h
  refine ⟨fun detected => ⟨?_, hloaded.resolved detected, fun s hrun => hloaded.not_fallsBack hrun,
    fun row hrow => ?_⟩, ?_⟩
  · intro left hl right hr hml hmr hby
    exact hloaded.unique hl hr hml hmr hby
  · have hmem := resolve_mem_candidates hloaded hrow
    exact ⟨hmem, selectProfile_of_mem hmem⟩
  · intro documents' targets' hdocuments htargets
    exact ⟨registry, fromDocuments_perm hdocuments htargets h, fun _ => rfl⟩

/-- The text of a row document. -/
def cpuText : List Char :=
  ["\x7b\"schema_version\": \"0.1\", \"row_id\": \"ubuntu2204-x86-cpu\", \"os\": ",
    "\x7b\"name\": \"Ubuntu\", \"version\": \"22.04\"\x7d, \"kernel_driver_stack\": ",
    "\x7b\"components\": []\x7d, \"cpu\": \x7b\"architecture\": \"x86_64\", \"vendors\": ",
    "[\"amd\", \"intel\"]\x7d, \"backend_packages\": [\x7b\"backend_path\": ",
    "\"python_pytorch\", \"channel\": \"apt\", \"packages\": ",
    "[\"tensorplate-backend-python-pytorch\"]\x7d], \"model_class_rows\": [], ",
    "\"gate_semantics\": \x7b\"thermal\": \x7b\"gate\": \"context_only\"\x7d, \"power\": ",
    "\x7b\"gate\": \"context_only\"\x7d, \"throttle\": \x7b\"gate\": \"context_only\"\x7d, ",
    "\"memory\": \x7b\"gate\": \"context_only\"\x7d, \"gpu_utilization\": \x7b\"gate\": ",
    "\"not_applicable\", \"reason\": \"no accelerator is present on this row\"\x7d\x7d, ",
    "\"support_level\": \"Preview\", \"provenance\": \"spec_authored\", ",
    "\"validation_environment\": \x7b\"kind\": \"cloud_instance\", \"identity\": ",
    "\"Any x86_64 Ubuntu 22.04 host\"\x7d\x7d"].flatMap String.toList

/-- A row document. -/
def cpuDocument : String := String.ofList cpuText

/-- What it decodes to. -/
def cpuRow : WireRow where
  schemaVersion := "0.1"
  rowId := "ubuntu2204-x86-cpu"
  os := { name := "Ubuntu", version := "22.04" }
  kernelDriverStack := []
  cpu := { architecture := .x86_64, vendors := [.amd, .intel] }
  backendPackages :=
    [{ backendPath := "python_pytorch", channel := .apt,
       packages := ["tensorplate-backend-python-pytorch"] }]
  modelClassRows := []
  gateSemantics :=
    { thermal := { gate := .contextOnly }, power := { gate := .contextOnly },
      throttle := { gate := .contextOnly }, memory := { gate := .contextOnly },
      gpuUtilization :=
        { gate := .notApplicable, reason := some "no accelerator is present on this row" } }
  supportLevel := .preview
  provenance := .specAuthored
  validationEnvironment := { kind := .cloudInstance, identity := "Any x86_64 Ubuntu 22.04 host" }

/-- The decoder, as it reads a document of that row. -/
def rowDecoder (document : List Char) : Decoder where
  schemaVersion text := if text = document then .ok (some "0.1") else .error "expected value"
  wireRow text := if text = document then .ok cpuRow else .error "expected value"
  roadmapTarget _ := .error (.malformed "expected value")

theorem rowDecoder_self (document : List Char) :
    (rowDecoder document).schemaVersion document = .ok (some "0.1") ∧
      (rowDecoder document).wireRow document = .ok cpuRow :=
  ⟨if_pos rfl, if_pos rfl⟩

def cpuDecoder : Decoder := rowDecoder cpuDocument.toList

theorem validate_cpuRow : validate cpuRow = .ok () := by decide +kernel

theorem canonicalize_cpuDocument : Protocol.canonicalizeByteLexemes cpuDocument.toList =
    some (.ok cpuDocument.toList) := by
  unfold cpuDocument
  rw [String.toList_ofList]
  decide +kernel

theorem fromWire_of_valid {wire : WireRow} (h : validate wire = .ok ()) :
    PlatformSupportRow.fromWire wire = .ok ⟨wire, h⟩ := by
  unfold PlatformSupportRow.fromWire
  split
  · rfl
  · rename_i e he
    rw [h] at he
    cases he

theorem fromJson_of_decoded {decoder : Decoder} {json : String} {canonical : List Char}
    {wire : WireRow}
    (hcanonical : Protocol.canonicalizeByteLexemes json.toList = some (.ok canonical))
    (hversion : decoder.schemaVersion canonical = .ok (some platformSupportRowSchemaVersion))
    (hwire : decoder.wireRow canonical = .ok wire) :
    PlatformSupportRow.fromJson decoder json = PlatformSupportRow.fromWire wire := by
  unfold PlatformSupportRow.fromJson
  rw [hcanonical]
  simp only [bind, Except.bind, hversion, hwire, Except.mapError, ne_eq, not_true_eq_false,
    if_false]

theorem fromJson_cpuDocument : PlatformSupportRow.fromJson cpuDecoder cpuDocument =
    .ok ⟨cpuRow, validate_cpuRow⟩ := by
  obtain ⟨hversion, hwire⟩ := rowDecoder_self cpuDocument.toList
  unfold cpuDecoder
  rw [fromJson_of_decoded canonicalize_cpuDocument hversion hwire]
  exact fromWire_of_valid validate_cpuRow

/-- The registry of that row, in which an x86 host of its version is
supported. -/
theorem resolve_determined_cpu : ∃ registry,
    PlatformRegistry.fromDocuments cpuDecoder [("rows/ubuntu2204-x86-cpu.json", cpuDocument)] [] =
      .ok registry ∧
    ∀ detected, Resolved registry.rows detected (registry.resolve detected) := by
  have h : PlatformRegistry.fromDocuments cpuDecoder
      [("rows/ubuntu2204-x86-cpu.json", cpuDocument)] [] =
      .ok ⟨[⟨cpuRow, validate_cpuRow⟩], []⟩ := by
    rw [fromDocuments_eq_ok]
    refine ⟨?_, by simp, rfl⟩
    rw [List.foldlM_cons]
    unfold loadRow
    rw [fromJson_cpuDocument]
    rfl
  exact ⟨_, h, fun detected => ((resolve_determined h).1 detected).2.1⟩

end Platform

end Tensorplate
