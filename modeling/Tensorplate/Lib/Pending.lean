import Mathlib.Algebra.GroupWithZero.Nat
import Mathlib.Data.List.Induction

/-!
# What a history has started and not yet ended

`Pending starts ends h` says that some entry of `h` starts something that no
later entry ends. A history grown one entry at a time has something pending
when the new entry starts it, or when it was pending and is not ended.
-/

namespace Tensorplate

namespace Lib

variable {α : Type*} {starts ends : α → Prop} {h : List α} {x : α}

/-- **Something started that nothing after it ends.** -/
def Pending (starts ends : α → Prop) (h : List α) : Prop :=
  ∃ past x later, h = past ++ x :: later ∧ starts x ∧ ∀ y ∈ later, ¬ends y

theorem not_pending_nil : ¬Pending starts ends [] := by
  rintro ⟨past, x, later, h, -, -⟩
  exact absurd h (by simp)

theorem pending_append_singleton :
    Pending starts ends (h ++ [x]) ↔ starts x ∨ Pending starts ends h ∧ ¬ends x := by
  constructor
  · rintro ⟨past, y, later, heq, hstarts, hlater⟩
    rcases List.eq_nil_or_concat later with rfl | ⟨front, z, rfl⟩
    · obtain ⟨-, hxy⟩ := List.append_inj' heq rfl
      rw [List.cons.inj hxy |>.1]
      exact .inl hstarts
    · have hsplit : h ++ [x] = (past ++ y :: front) ++ [z] := by simpa using heq
      obtain ⟨hfront, hxz⟩ := List.append_inj' hsplit rfl
      obtain rfl := (List.cons.inj hxz).1
      refine .inr ⟨⟨past, y, front, hfront, hstarts, fun u hu => ?_⟩, ?_⟩
      · exact hlater u (by simp [hu])
      · exact hlater x (by simp)
  · rintro (hstarts | ⟨⟨past, y, later, rfl, hstarts, hlater⟩, hends⟩)
    · exact ⟨h, x, [], rfl, hstarts, nofun⟩
    · refine ⟨past, y, later ++ [x], by simp, hstarts, fun u hu => ?_⟩
      rcases List.mem_append.1 hu with hu | hu
      · exact hlater u hu
      · rwa [List.mem_singleton.1 hu]

/-- Entries that neither start nor end anything make no difference. -/
theorem pending_append {later : List α} (hlater : ∀ x ∈ later, ¬starts x ∧ ¬ends x) :
    Pending starts ends (h ++ later) ↔ Pending starts ends h := by
  induction later using List.reverseRecOn with
  | nil => rw [List.append_nil]
  | append_singleton later x ih =>
    have hx := hlater x (by simp)
    rw [← List.append_assoc, pending_append_singleton, ih fun y hy => hlater y (by simp [hy])]
    constructor
    · rintro (hstarts | ⟨hpending, -⟩)
      · exact absurd hstarts hx.1
      · exact hpending
    · exact fun hpending => .inr ⟨hpending, hx.2⟩

end Lib

end Tensorplate
