import Mathlib.Algebra.GroupWithZero.Nat
import Mathlib.Data.Nat.Basic
import Mathlib.Tactic.Common

/-!
# Unsigned 64-bit arithmetic on naturals

A counter the source holds as `std::uint64_t` is a natural below `2 ^ 64`.
Sums and differences wrap; where the operands are in range they are the
natural ones.
-/

namespace Tensorplate

namespace Lib

/-- The number of values a 64-bit word takes. -/
def word64 : ℕ := 2 ^ 64

/-- Wrapping addition. -/
def add64 (a b : ℕ) : ℕ := (a + b) % word64

/-- Wrapping subtraction. -/
def sub64 (a b : ℕ) : ℕ := (a + (word64 - b % word64)) % word64

theorem add64_of_lt {a b : ℕ} (h : a + b < word64) : add64 a b = a + b :=
  Nat.mod_eq_of_lt h

theorem sub64_of_le {a b : ℕ} (hba : b ≤ a) (ha : a < word64) : sub64 a b = a - b := by
  unfold sub64 word64 at *
  have hb : b % 2 ^ 64 = b := Nat.mod_eq_of_lt (by omega)
  omega

end Lib

end Tensorplate
