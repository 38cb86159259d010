import Mathlib.Algebra.GroupWithZero.Nat
import Mathlib.Tactic.Common

/-!
# Computations that may fail

A sequence of computations succeeds where each of them does.
-/

namespace Tensorplate

namespace Lib

variable {ε α β : Type}

theorem bind_eq_ok {x : Except ε α} {f : α → Except ε β} {b : β} :
    (x >>= f) = .ok b ↔ ∃ a, x = .ok a ∧ f a = .ok b := by
  cases x with
  | error e => simp [bind, Except.bind]
  | ok a => simp [bind, Except.bind]

theorem bind_eq_error {x : Except ε α} {f : α → Except ε β} {e : ε} :
    (x >>= f) = .error e ↔ x = .error e ∨ ∃ a, x = .ok a ∧ f a = .error e := by
  cases x with
  | error e => simp [bind, Except.bind]
  | ok a => simp [bind, Except.bind]

/-- A step that succeeds is taken. -/
theorem bind_of_ok {x : Except ε α} {f : α → Except ε β} {a : α} (h : x = .ok a) :
    (x >>= f) = f a := by
  rw [h]
  rfl

/-- The same with a state passed along. -/
theorem stateT_bind_eq_ok {σ : Type} {x : StateT σ (Except ε) α} {f : α → StateT σ (Except ε) β}
    {s t : σ} {b : β} :
    (x >>= f) s = .ok (b, t) ↔ ∃ a r, x s = .ok (a, r) ∧ f a r = .ok (b, t) := by
  refine bind_eq_ok.trans ⟨?_, ?_⟩
  · rintro ⟨⟨a, r⟩, hx, hf⟩
    exact ⟨a, r, hx, hf⟩
  · rintro ⟨a, r, hx, hf⟩
    exact ⟨(a, r), hx, hf⟩

theorem stateT_pure_eq_ok {σ : Type} {a b : α} {s t : σ} :
    (pure a : StateT σ (Except ε) α) s = .ok (b, t) ↔ a = b ∧ s = t :=
  Except.ok.injEq (a, s) (b, t) ▸ Prod.mk.injEq a s b t ▸ Iff.rfl

end Lib

end Tensorplate
