import Mathlib.Algebra.GroupWithZero.Nat
import Mathlib.Data.List.Basic

/-!
# Grouped lists

A list is grouped where the occurrences of each of its elements stand
together. It stays so while only an element that stands at its end, or is
new to it, joins.
-/

namespace Tensorplate

namespace Lib

variable {α : Type*} {l : List α} {x : α}

/-- Between two occurrences of an element there is no other. -/
def Grouped (l : List α) : Prop :=
  ∀ a b c x, l = a ++ x :: (b ++ x :: c) → ∀ y ∈ b, y = x

/-- The occurrences of the element, if there are any, end the list. -/
def EndsWith (l : List α) (x : α) : Prop :=
  ∃ front tail, l = front ++ tail ∧ x ∉ front ∧ ∀ y ∈ tail, y = x

theorem grouped_nil : Grouped ([] : List α) := by
  intro a b c x h
  simp at h

theorem endsWith_of_notMem (h : x ∉ l) : EndsWith l x :=
  ⟨l, [], by simp, h, by simp⟩

theorem EndsWith.concat (h : EndsWith l x) : EndsWith (l ++ [x]) x := by
  obtain ⟨front, tail, rfl, hfront, htail⟩ := h
  refine ⟨front, tail ++ [x], by simp, hfront, fun y hy => ?_⟩
  rcases List.mem_append.1 hy with hy | hy
  · exact htail y hy
  · exact List.mem_singleton.1 hy

/-- Behind its first occurrence, the element that ends the list is alone. -/
theorem EndsWith.alone (h : EndsWith l x) {a b : List α} (hl : l = a ++ x :: b) :
    ∀ y ∈ b, y = x := by
  obtain ⟨front, tail, rfl, hfront, htail⟩ := h
  rcases List.append_eq_append_iff.1 hl with ⟨as, rfl, rfl⟩ | ⟨bs, rfl, hcons⟩
  · intro y hy
    exact htail y (by simp [hy])
  · rcases bs with _ | ⟨b₀, bs⟩
    · intro y hy
      rw [List.nil_append] at hcons
      exact htail y (by rw [← hcons]; simp [hy])
    · rw [List.cons_append, List.cons.injEq] at hcons
      exact absurd (by simp [hcons.1]) hfront

/-- **The element at the end joins again.** -/
theorem Grouped.concat (hl : Grouped l) (h : EndsWith l x) : Grouped (l ++ [x]) := by
  intro a b c y heq z hz
  rcases List.eq_nil_or_concat c with rfl | ⟨c', last, rfl⟩
  · -- The second occurrence is the one that joined.
    have hsplit : l ++ [x] = (a ++ y :: b) ++ [y] := by
      rw [heq]
      simp
    obtain ⟨hl', hxy⟩ := List.append_inj' hsplit rfl
    obtain rfl := List.singleton_inj.1 hxy
    exact h.alone hl' z hz
  · have hsplit : l ++ [x] = (a ++ y :: (b ++ y :: c')) ++ [last] := by
      rw [heq]
      simp
    obtain ⟨hl', -⟩ := List.append_inj' hsplit rfl
    exact hl a b c' y hl' z hz

end Lib

end Tensorplate
