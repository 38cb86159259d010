import Mathlib.Algebra.GroupWithZero.Nat
import Mathlib.Data.List.Induction

/-!
# Histories whose every entry is judged by what precedes it

A history is a list that only grows at its end. `Lawful ok h` says that
each entry of `h` is allowed by the entries before it; a history grown
one entry at a time stays lawful when each new entry is allowed, so an
ordering guarantee over a whole history is proved one entry at a time.
-/

namespace Tensorplate

namespace Lib

variable {α : Type*} {ok : List α → α → Prop}

/-- **Every entry is allowed by its past.** -/
def Lawful (ok : List α → α → Prop) (h : List α) : Prop :=
  ∀ past x future, h = past ++ x :: future → ok past x

theorem lawful_nil : Lawful ok [] := by
  intro past x future h
  simp at h

/-- Appending one entry asks only that entry to be allowed. -/
theorem lawful_append_singleton {h : List α} {x : α} :
    Lawful ok (h ++ [x]) ↔ Lawful ok h ∧ ok h x := by
  constructor
  · intro hl
    refine ⟨fun past y future hy => ?_, hl h x [] rfl⟩
    exact hl past y (future ++ [x]) (by simp [hy])
  · rintro ⟨hl, hx⟩ past y future hy
    rcases List.eq_nil_or_concat future with rfl | ⟨front, z, rfl⟩
    · obtain ⟨rfl, hxy⟩ := List.append_inj' hy rfl
      simp only [List.cons.injEq, and_true] at hxy
      exact hxy ▸ hx
    · have hsplit : h ++ [x] = (past ++ y :: front) ++ [z] := by simpa using hy
      obtain ⟨rfl, -⟩ := List.append_inj' hsplit rfl
      exact hl past y front rfl

/-- Entries that are allowed behind any past may follow. -/
theorem Lawful.append {h later : List α} (hl : Lawful ok h) (hok : ∀ x ∈ later, ∀ past, ok past x) :
    Lawful ok (h ++ later) := by
  induction later using List.reverseRecOn with
  | nil => simpa using hl
  | append_singleton later x ih =>
    rw [← List.append_assoc, lawful_append_singleton]
    exact ⟨ih fun y hy => hok y (by simp [hy]), hok x (by simp) _⟩

/-- A lawful history's prefix is lawful. -/
theorem Lawful.of_append {h later : List α} (hl : Lawful ok (h ++ later)) : Lawful ok h := by
  intro past x future hx
  exact hl past x (future ++ later) (by simp [hx])

/-- A weaker judgement holds wherever a stronger one does. -/
theorem Lawful.mono {ok' : List α → α → Prop} {h : List α}
    (hok : ∀ past x, ok past x → ok' past x) (hl : Lawful ok h) : Lawful ok' h :=
  fun past x future hx => hok past x (hl past x future hx)

/-- **What is never allowed after its like occurs at most once.** -/
theorem Lawful.countP_le_one {h : List α} {p : α → Bool} (hl : Lawful ok h)
    (hx : ∀ past x, ok past x → p x = true → ∀ y ∈ past, p y = false) : h.countP p ≤ 1 := by
  induction h using List.reverseRecOn with
  | nil => simp
  | append_singleton h y ih =>
    obtain ⟨hh, hy⟩ := lawful_append_singleton.1 hl
    cases hp : p y with
    | true =>
      have hzero : h.countP p = 0 := List.countP_eq_zero.2 fun z hz => by
        simp [hx h y hy hp z hz]
      simp [List.countP_append, hzero, hp]
    | false =>
      have := ih hh
      simpa [List.countP_append, hp] using this

/-- An entry that is never allowed after itself occurs at most once. -/
theorem Lawful.count_le_one [DecidableEq α] {h : List α} {x : α} (hl : Lawful ok h)
    (hx : ∀ past, ok past x → x ∉ past) : h.count x ≤ 1 := by
  refine hl.countP_le_one fun past y hy hp z hz => ?_
  rw [beq_iff_eq] at hp
  subst hp
  rw [beq_eq_false_iff_ne]
  rintro rfl
  exact hx past hy hz

end Lib

end Tensorplate
