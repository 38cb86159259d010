import Mathlib.Algebra.GroupWithZero.Nat
import Mathlib.Data.List.Basic

/-!
# A pool of callers

The callers between two of their steps are a list. One of them goes on:
it leaves its place, and what it becomes joins at the end. Of the callers
of one kind, the rest stay in their order.
-/

namespace Tensorplate

namespace Lib

variable {α : Type*} {p : α → Bool} {l : List α} {i : ℕ} {t u : α}

/-- A caller of another kind leaves. -/
theorem filter_eraseIdx_of_not (h : l[i]? = some t) (hp : p t = false) :
    (l.eraseIdx i).filter p = l.filter p := by
  induction l generalizing i with
  | nil => cases h
  | cons a rest ih =>
    cases i with
    | zero =>
      obtain rfl := Option.some.inj h
      rw [List.eraseIdx_cons_zero, List.filter_cons_of_neg (by simp [hp])]
    | succ i =>
      have hrest := ih h
      rw [List.eraseIdx_cons_succ, List.filter_cons, List.filter_cons, hrest]

/-- **The only caller of its kind leaves.** -/
theorem filter_eraseIdx_of_singleton (h : l[i]? = some t) (hp : p t = true)
    (hl : l.filter p = [u]) : t = u ∧ (l.eraseIdx i).filter p = [] := by
  induction l generalizing i with
  | nil => cases h
  | cons a rest ih =>
    cases i with
    | zero =>
      obtain rfl := Option.some.inj h
      rw [List.filter_cons_of_pos hp, List.cons.injEq] at hl
      exact ⟨hl.1, by rw [List.eraseIdx_cons_zero, hl.2]⟩
    | succ i =>
      have hmem : t ∈ rest.filter p :=
        List.mem_filter.2 ⟨List.mem_of_getElem? h, hp⟩
      have ha : p a = false := by
        rw [Bool.eq_false_iff]
        intro ha
        rw [List.filter_cons_of_pos ha, List.cons.injEq] at hl
        rw [hl.2] at hmem
        cases hmem
      rw [List.filter_cons_of_neg (by simp [ha])] at hl
      obtain ⟨htu, herase⟩ := ih h hl
      refine ⟨htu, ?_⟩
      rw [List.eraseIdx_cons_succ, List.filter_cons_of_neg (by simp [ha]), herase]

/-- A kind without callers has none that could leave. -/
theorem not_of_filter_eq_nil (h : l[i]? = some t) (hl : l.filter p = []) : p t = false := by
  rw [List.filter_eq_nil_iff] at hl
  have ht := hl t (List.mem_of_getElem? h)
  simpa using ht

theorem filter_concat_of_pos (hp : p t = true) : (l ++ [t]).filter p = l.filter p ++ [t] := by
  rw [List.filter_append, List.filter_cons_of_pos hp, List.filter_nil]

/-- The first caller of its kind joins. -/
theorem filter_concat_singleton (hl : l.filter p = []) (hp : p t = true) :
    (l ++ [t]).filter p = [t] := by
  rw [filter_concat_of_pos hp, hl, List.nil_append]

theorem filter_concat_of_neg (hp : p t = false) : (l ++ [t]).filter p = l.filter p := by
  rw [List.filter_append, List.filter_cons_of_neg (by simp [hp]), List.filter_nil,
    List.append_nil]

end Lib

end Tensorplate
