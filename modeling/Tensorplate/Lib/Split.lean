import Mathlib.Algebra.GroupWithZero.Nat
import Mathlib.Data.List.Basic

/-!
# The first entry of a list that matches

`splitFirst p l` is a position in `l`: what stands before the first entry
`p` accepts, that entry, and what stands after it. It is what a search
that returns an iterator gives its caller, who may then replace or erase
the entry in place.
-/

namespace Tensorplate

namespace Lib

variable {α : Type*} {p : α → Bool} {l front back : List α} {x : α}

/-- The position of the first entry `p` accepts, if there is one. -/
def splitFirst (p : α → Bool) : List α → Option (List α × α × List α)
  | [] => none
  | x :: rest =>
    if p x then some ([], x, rest)
    else (splitFirst p rest).map fun (front, y, back) => (x :: front, y, back)

/-- **What a position is.** -/
theorem splitFirst_eq_some (h : splitFirst p l = some (front, x, back)) :
    l = front ++ x :: back ∧ p x = true ∧ ∀ y ∈ front, p y = false := by
  induction l generalizing front with
  | nil => simp [splitFirst] at h
  | cons y rest ih =>
    rw [splitFirst] at h
    split at h
    · next hy =>
      simp only [Option.some.injEq, Prod.mk.injEq] at h
      obtain ⟨rfl, rfl, rfl⟩ := h
      simp [hy]
    · next hy =>
      simp only [Option.map_eq_some_iff, Prod.mk.injEq, Prod.exists] at h
      obtain ⟨front', x', back', hs, rfl, rfl, rfl⟩ := h
      obtain ⟨hl, hx, hf⟩ := ih hs
      refine ⟨by simp [hl], hx, ?_⟩
      simpa [hy] using hf

/-- The first entry that matches is found where it stands. -/
theorem splitFirst_append (hx : p x = true) (hf : ∀ y ∈ front, p y = false) :
    splitFirst p (front ++ x :: back) = some (front, x, back) := by
  induction front with
  | nil => simp [splitFirst, hx]
  | cons y rest ih =>
    have hy := hf y (List.mem_cons_self ..)
    have hr := ih fun z hz => hf z (List.mem_cons_of_mem _ hz)
    rw [List.cons_append, splitFirst, if_neg (by simp [hy]), hr]
    rfl

theorem splitFirst_eq_none : splitFirst p l = none ↔ ∀ y ∈ l, p y = false := by
  induction l with
  | nil => simp [splitFirst]
  | cons y rest ih =>
    rw [splitFirst]
    by_cases hy : p y <;> simp [hy, ih]

/-- An entry that occurs, and at most once, splits the list around it. -/
theorem exists_split_of_countP_le_one (hx : ∃ x ∈ l, p x = true) (hl : l.countP p ≤ 1) :
    ∃ front x back, l = front ++ x :: back ∧ p x = true ∧
      (∀ y ∈ front, p y = false) ∧ ∀ y ∈ back, p y = false := by
  obtain ⟨x, hmem, hp⟩ := hx
  obtain ⟨front, back, rfl⟩ := List.append_of_mem hmem
  rw [List.countP_append, List.countP_cons, if_pos hp] at hl
  have hf : front.countP p = 0 := by omega
  have hb : back.countP p = 0 := by omega
  rw [List.countP_eq_zero] at hf hb
  exact ⟨front, x, back, rfl, hp, fun y hy => by simpa using hf y hy,
    fun y hy => by simpa using hb y hy⟩

end Lib

end Tensorplate
