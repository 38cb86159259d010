import Mathlib.Algebra.GroupWithZero.Nat
import Mathlib.Data.List.TakeWhile
import Mathlib.Tactic.Common

/-!
# The record of released sessions

`ReleasedSessionKeys` keeps the keys it was given as runs of consecutive
keys. The runs are in order, none touches the next, so a key belongs to at
most one of them: the last that does not begin above it.
-/

namespace Tensorplate

namespace Channel

/-- The runs, the first keys ascending: a run's first key and its last. -/
def Separated (runs : List (ℕ × ℕ)) : Prop :=
  (∀ r ∈ runs, r.1 ≤ r.2) ∧ runs.Pairwise fun a b => a.2 + 1 < b.1

/-- `ReleasedSessionKeys`. -/
structure ReleasedSessionKeys where
  runs : List (ℕ × ℕ) := []
  separated : Separated runs := by exact ⟨nofun, List.Pairwise.nil⟩

/-- Every key of a run. -/
def Covers (runs : List (ℕ × ℕ)) (key : ℕ) : Prop := ∃ r ∈ runs, r.1 ≤ key ∧ key ≤ r.2

/-- The runs up to a key and those that begin above it. -/
def upperBound (runs : List (ℕ × ℕ)) (key : ℕ) : List (ℕ × ℕ) × List (ℕ × ℕ) :=
  (runs.takeWhile fun r => r.1 ≤ key, runs.dropWhile fun r => r.1 ≤ key)

/-- `contains`, over the runs. -/
def containsKey (runs : List (ℕ × ℕ)) (key : ℕ) : Bool :=
  match (upperBound runs key).1.getLast? with
  | none => false
  | some before => key ≤ before.2

/-- The run that ends where `key` begins. -/
def joinsBefore (runs : List (ℕ × ℕ)) (key : ℕ) : Option (ℕ × ℕ) :=
  (upperBound runs key).1.getLast?.filter fun before => before.2 + 1 = key

/-- The run that begins where `key` ends. -/
def joinsAfter (runs : List (ℕ × ℕ)) (key : ℕ) : Option (ℕ × ℕ) :=
  (upperBound runs key).2.head?.filter fun after => key + 1 = after.1

/-- `insert`, over the runs: the key joins the run before it, the run behind
it, both or neither. -/
def insertRun (runs : List (ℕ × ℕ)) (key : ℕ) : List (ℕ × ℕ) :=
  if containsKey runs key then runs
  else
    let upto := (upperBound runs key).1
    let beyond := (upperBound runs key).2
    match joinsBefore runs key, joinsAfter runs key with
    | some before, some after => upto.dropLast ++ (before.1, after.2) :: beyond.tail
    | some before, none => upto.dropLast ++ (before.1, key) :: beyond
    | none, some after => upto ++ (key, after.2) :: beyond.tail
    | none, none => upto ++ (key, key) :: beyond

/-! ## What the record holds -/

section

variable {runs : List (ℕ × ℕ)} (key : ℕ)

theorem upperBound_append (runs : List (ℕ × ℕ)) :
    (upperBound runs key).1 ++ (upperBound runs key).2 = runs :=
  List.takeWhile_append_dropWhile

theorem upto_le (runs : List (ℕ × ℕ)) : ∀ r ∈ (upperBound runs key).1, r.1 ≤ key := by
  intro r hr
  have := List.mem_takeWhile_imp hr
  simpa using this

/-- Behind the last run up to the key all begin above it. -/
theorem beyond_gt (h : Separated runs) : ∀ r ∈ (upperBound runs key).2, key < r.1 := by
  have happ := upperBound_append key runs
  have hhead : ∀ r ∈ (upperBound runs key).2.head?, key < r.1 := by
    intro r hr
    have := List.head?_dropWhile_not (fun r : ℕ × ℕ => decide (r.1 ≤ key)) runs
    rw [show (runs.dropWhile fun r => decide (r.1 ≤ key)).head? = some r from hr] at this
    simpa using this
  have hsep : Separated (upperBound runs key).2 := by
    rw [← happ] at h
    exact ⟨fun r hr => h.1 r (List.mem_append_right _ hr), (List.pairwise_append.1 h.2).2.1⟩
  cases hb : (upperBound runs key).2 with
  | nil => nofun
  | cons a rest =>
    rw [hb] at hhead hsep
    intro r hr
    rcases List.mem_cons.1 hr with rfl | hr
    · exact hhead r rfl
    · have h₁ := hhead a rfl
      have h₂ := (List.pairwise_cons.1 hsep.2).1 r hr
      have h₃ := hsep.1 a List.mem_cons_self
      omega

/-- What separates the two sides of a key. -/
theorem separated_parts (h : Separated runs) :
    Separated (upperBound runs key).1 ∧ Separated (upperBound runs key).2 ∧
      ∀ a ∈ (upperBound runs key).1, ∀ b ∈ (upperBound runs key).2, a.2 + 1 < b.1 := by
  rw [← upperBound_append key runs] at h
  obtain ⟨hu, hb, hcross⟩ := List.pairwise_append.1 h.2
  exact ⟨⟨fun r hr => h.1 r (List.mem_append_left _ hr), hu⟩,
    ⟨fun r hr => h.1 r (List.mem_append_right _ hr), hb⟩, hcross⟩

variable {key}

/-- **`contains`** finds the key of a run. -/
theorem containsKey_iff (h : Separated runs) : containsKey runs key = true ↔ Covers runs key := by
  obtain ⟨hu, -, -⟩ := separated_parts key h
  have hle := upto_le key runs
  have hgt := beyond_gt key h
  have happ := upperBound_append key runs
  unfold containsKey
  generalize (upperBound runs key).1 = upto at *
  generalize (upperBound runs key).2 = beyond at *
  subst happ
  have hbeyond : Covers (upto ++ beyond) key ↔ ∃ r ∈ upto, key ≤ r.2 := by
    constructor
    · rintro ⟨r, hr, h₁, h₂⟩
      rcases List.mem_append.1 hr with hr | hr
      · exact ⟨r, hr, h₂⟩
      · exact absurd (hgt r hr) (by omega)
    · rintro ⟨r, hr, h₂⟩
      exact ⟨r, List.mem_append_left _ hr, hle r hr, h₂⟩
  rw [hbeyond]
  rcases List.eq_nil_or_concat upto with rfl | ⟨front, before, rfl⟩
  · exact ⟨nofun, fun ⟨_, hr, _⟩ => (nomatch hr)⟩
  · rw [List.concat_eq_append, List.getLast?_concat]
    simp only [decide_eq_true_eq]
    constructor
    · exact fun hb => ⟨before, List.mem_append_right _ List.mem_cons_self, hb⟩
    · rintro ⟨r, hr, hk⟩
      rw [List.concat_eq_append] at hle hu
      rcases List.mem_append.1 hr with hr | hr
      · -- an earlier run ends below the last one's first key
        have hlt := (List.pairwise_append.1 hu.2).2.2 r hr before List.mem_cons_self
        have := hle before (List.mem_append_right _ List.mem_cons_self)
        omega
      · rw [List.mem_singleton.1 hr] at hk
        exact hk

/-- One run between two sides that keep away from it. -/
theorem separated_insert {left right : List (ℕ × ℕ)} {a b : ℕ} (hab : a ≤ b)
    (hl : Separated left) (hr : Separated right) (hla : ∀ r ∈ left, r.2 + 1 < a)
    (hbr : ∀ r ∈ right, b + 1 < r.1) : Separated (left ++ (a, b) :: right) := by
  constructor
  · intro r hr'
    rcases List.mem_append.1 hr' with h | h
    · exact hl.1 r h
    · rcases List.mem_cons.1 h with rfl | h
      · exact hab
      · exact hr.1 r h
  · refine List.pairwise_append.2 ⟨hl.2, List.pairwise_cons.2 ⟨hbr, hr.2⟩, fun x hx y hy => ?_⟩
    rcases List.mem_cons.1 hy with rfl | hy
    · exact hla x hx
    · have := hla x hx
      have := hbr y hy
      show x.2 + 1 < y.1
      omega

theorem covers_cons {right : List (ℕ × ℕ)} {after : ℕ × ℕ} {j : ℕ} :
    Covers (after :: right) j ↔ (after.1 ≤ j ∧ j ≤ after.2) ∨ Covers right j := by
  unfold Covers
  simp only [List.mem_cons, or_and_right, exists_or, exists_eq_left]

theorem covers_append {left right : List (ℕ × ℕ)} {j : ℕ} :
    Covers (left ++ right) j ↔ Covers left j ∨ Covers right j := by
  unfold Covers
  simp only [List.mem_append, or_and_right, exists_or]

theorem covers_insert {left right : List (ℕ × ℕ)} {a b j : ℕ} :
    Covers (left ++ (a, b) :: right) j ↔ Covers left j ∨ (a ≤ j ∧ j ≤ b) ∨ Covers right j := by
  rw [covers_append, covers_cons]

theorem not_covers_nil {j : ℕ} : ¬Covers [] j := fun ⟨_, h, _⟩ => nomatch h

theorem separated_dropLast {left : List (ℕ × ℕ)} {before : ℕ × ℕ}
    (h : Separated (left ++ [before])) :
    Separated left ∧ ∀ r ∈ left, r.2 + 1 < before.1 := by
  obtain ⟨hl, -, hcross⟩ := List.pairwise_append.1 h.2
  exact ⟨⟨fun r hr => h.1 r (List.mem_append_left _ hr), hl⟩,
    fun r hr => hcross r hr before List.mem_cons_self⟩

theorem separated_tail {right : List (ℕ × ℕ)} {after : ℕ × ℕ}
    (h : Separated (after :: right)) :
    Separated right ∧ ∀ r ∈ right, after.2 + 1 < r.1 :=
  ⟨⟨fun r hr => h.1 r (List.mem_cons_of_mem _ hr), (List.pairwise_cons.1 h.2).2⟩,
    (List.pairwise_cons.1 h.2).1⟩

theorem joinsBefore_eq_some {before : ℕ × ℕ} (h : joinsBefore runs key = some before) :
    (∃ front, (upperBound runs key).1 = front ++ [before]) ∧ before.2 + 1 = key := by
  obtain ⟨hlast, hj⟩ := Option.filter_eq_some_iff.1 h
  refine ⟨?_, by simpa using hj⟩
  obtain ⟨front, hfront⟩ := List.getLast?_eq_some_iff.1 hlast
  exact ⟨front, hfront⟩

theorem joinsAfter_eq_some {after : ℕ × ℕ} (h : joinsAfter runs key = some after) :
    (∃ rest, (upperBound runs key).2 = after :: rest) ∧ key + 1 = after.1 := by
  obtain ⟨hhead, hj⟩ := Option.filter_eq_some_iff.1 h
  refine ⟨?_, by simpa using hj⟩
  obtain ⟨rest, hrest⟩ := List.head?_eq_some_iff.1 hhead
  exact ⟨rest, hrest⟩

/-- The run before a key that joins none ends further below. -/
theorem lt_of_joinsBefore_none (h : Separated runs) (hc : containsKey runs key = false)
    (hj : joinsBefore runs key = none) : ∀ r ∈ (upperBound runs key).1, r.2 + 1 < key := by
  obtain ⟨hu, -, -⟩ := separated_parts key h
  have hle := upto_le key runs
  unfold containsKey at hc
  unfold joinsBefore at hj
  generalize (upperBound runs key).1 = upto at *
  rcases List.eq_nil_or_concat upto with rfl | ⟨front, before, rfl⟩
  · nofun
  · rw [List.concat_eq_append] at *
    rw [List.getLast?_concat] at hc hj
    have hb : before.2 < key := by simpa using hc
    have hne : before.2 + 1 ≠ key := by simpa using hj
    intro r hr
    rcases List.mem_append.1 hr with hr | hr
    · have := (separated_dropLast hu).2 r hr
      have := hle before (List.mem_append_right _ List.mem_cons_self)
      omega
    · rw [List.mem_singleton.1 hr]
      omega

theorem lt_of_joinsAfter_none (h : Separated runs) (hj : joinsAfter runs key = none) :
    ∀ r ∈ (upperBound runs key).2, key + 1 < r.1 := by
  obtain ⟨-, hb, -⟩ := separated_parts key h
  have hgt := beyond_gt key h
  unfold joinsAfter at hj
  generalize (upperBound runs key).2 = beyond at *
  cases beyond with
  | nil => nofun
  | cons after rest =>
    have hne : key + 1 ≠ after.1 := by simpa using hj
    have hlt := hgt after List.mem_cons_self
    intro r hr
    rcases List.mem_cons.1 hr with rfl | hr
    · omega
    · have := (separated_tail hb).2 r hr
      have := hb.1 after List.mem_cons_self
      omega

/-- **`insert`** adds the key and keeps the runs apart. -/
theorem insertRun_spec (h : Separated runs) :
    Separated (insertRun runs key) ∧
      ∀ j, Covers (insertRun runs key) j ↔ j = key ∨ Covers runs j := by
  unfold insertRun
  by_cases hc : containsKey runs key = true
  · rw [if_pos hc]
    refine ⟨h, fun j => ⟨.inr, ?_⟩⟩
    rintro (rfl | hj)
    · exact (containsKey_iff h).1 hc
    · exact hj
  · rw [if_neg hc]
    rw [Bool.not_eq_true] at hc
    obtain ⟨hu, hb, hcross⟩ := separated_parts key h
    have hle := upto_le key runs
    have hgt := beyond_gt key h
    have hcov : ∀ j, Covers runs j ↔
        Covers (upperBound runs key).1 j ∨ Covers (upperBound runs key).2 j := by
      intro j
      rw [← covers_append, upperBound_append key runs]
    have hnb := lt_of_joinsBefore_none h hc
    have hna : joinsAfter runs key = none → _ := lt_of_joinsAfter_none h
    dsimp only
    cases hjb : joinsBefore runs key with
    | some before =>
      obtain ⟨⟨front, hfront⟩, hbk⟩ := joinsBefore_eq_some hjb
      rw [hfront] at hu hcov
      obtain ⟨hf, hfb⟩ := separated_dropLast hu
      have hb1 := hu.1 before (List.mem_append_right _ List.mem_cons_self)
      cases hja : joinsAfter runs key with
      | some after =>
        obtain ⟨⟨rest, hrest⟩, hka⟩ := joinsAfter_eq_some hja
        rw [hrest] at hb hcov
        obtain ⟨hr, hra⟩ := separated_tail hb
        have ha1 := hb.1 after List.mem_cons_self
        rw [hfront, hrest, List.dropLast_concat, List.tail_cons]
        refine ⟨separated_insert (by omega) hf hr hfb hra, fun j => ?_⟩
        rw [covers_insert, hcov, covers_append, covers_cons, covers_cons]
        by_cases hcf : Covers front j <;> by_cases hcr : Covers rest j <;>
          simp only [hcf, hcr, not_covers_nil, true_or, or_true, false_or, or_false] <;> omega
      | none =>
        rw [hfront, List.dropLast_concat]
        refine ⟨separated_insert (by omega) hf hb hfb (hna hja), fun j => ?_⟩
        rw [covers_insert, hcov, covers_append, covers_cons]
        by_cases hcf : Covers front j <;> by_cases hcr : Covers (upperBound runs key).2 j <;>
          simp only [hcf, hcr, not_covers_nil, true_or, or_true, false_or, or_false] <;> omega
    | none =>
      cases hja : joinsAfter runs key with
      | some after =>
        obtain ⟨⟨rest, hrest⟩, hka⟩ := joinsAfter_eq_some hja
        rw [hrest] at hb hcov
        obtain ⟨hr, hra⟩ := separated_tail hb
        have ha1 := hb.1 after List.mem_cons_self
        rw [hrest, List.tail_cons]
        refine ⟨separated_insert (by omega) hu hr (hnb hjb) hra, fun j => ?_⟩
        rw [covers_insert, hcov, covers_cons]
        by_cases hcf : Covers (upperBound runs key).1 j <;> by_cases hcr : Covers rest j <;>
          simp only [hcf, hcr, true_or, or_true, false_or, or_false] <;> omega
      | none =>
        refine ⟨separated_insert (Nat.le_refl _) hu hb (hnb hjb) (hna hja), fun j => ?_⟩
        rw [covers_insert, hcov]
        by_cases hcf : Covers (upperBound runs key).1 j <;>
          by_cases hcr : Covers (upperBound runs key).2 j <;>
          simp only [hcf, hcr, true_or, or_true, false_or, or_false] <;> omega

end

namespace ReleasedSessionKeys

/-- `contains`. -/
def contains (s : ReleasedSessionKeys) (key : ℕ) : Bool := containsKey s.runs key

/-- `insert`. -/
def insert (s : ReleasedSessionKeys) (key : ℕ) : ReleasedSessionKeys :=
  ⟨insertRun s.runs key, (insertRun_spec s.separated).1⟩

theorem contains_empty (key : ℕ) : (({} : ReleasedSessionKeys)).contains key = false := rfl

/-- **The record** holds the keys that were inserted. -/
theorem contains_insert (s : ReleasedSessionKeys) (key j : ℕ) :
    (s.insert key).contains j = true ↔ j = key ∨ s.contains j = true := by
  unfold contains
  rw [containsKey_iff (s.insert key).separated, containsKey_iff s.separated]
  exact (insertRun_spec s.separated).2 j

end ReleasedSessionKeys

end Channel

end Tensorplate
