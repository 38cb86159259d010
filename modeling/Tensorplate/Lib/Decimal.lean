import Mathlib.Algebra.GroupWithZero.Nat
import Mathlib.Algebra.Order.Field.Rat
import Mathlib.Algebra.Order.Field.Power
import Mathlib.Data.List.Basic
import Mathlib.Tactic.NormNum
import Mathlib.Tactic.Positivity
import Mathlib.Tactic.Ring
import Mathlib.Tactic.FieldSimp
import Mathlib.Tactic.Linarith

/-!
# Decimal digits

`Nat.ofDigitChars 10` reads digit characters and `Nat.toDigits 10` writes
them. Here are the bounds a run of digits has by its length and its outer
digits, when a decimal with an exponent is a natural number, and that the
plain spelling has no leading zero.
-/

namespace Tensorplate

namespace Lib

/-- The value of a run of decimal digits. -/
def decimal (ds : List Char) : ℕ := Nat.ofDigitChars 10 ds 0

theorem digit_le_nine {c : Char} (h : c.isDigit = true) : c.toNat - '0'.toNat ≤ 9 := by
  rw [Char.isDigit_iff_toNat] at h
  have h9 : '9'.toNat = 57 := rfl
  have h0 : '0'.toNat = 48 := rfl
  omega

theorem digit_pos {c : Char} (h : c.isDigit = true) (h0 : c ≠ '0') : 0 < c.toNat - '0'.toNat := by
  rw [Char.isDigit_iff_toNat] at h
  rcases Nat.eq_or_lt_of_le h.1 with he | hlt
  · exact absurd (Char.toNat_inj.1 he.symm) h0
  · omega

theorem decimal_append (xs ys : List Char) :
    decimal (xs ++ ys) = decimal xs * 10 ^ ys.length + decimal ys := by
  unfold decimal
  rw [Nat.ofDigitChars_append, Nat.ofDigitChars_eq_ofDigitChars_zero, Nat.mul_comm]

theorem decimal_cons (c : Char) (cs : List Char) :
    decimal (c :: cs) = (c.toNat - '0'.toNat) * 10 ^ cs.length + decimal cs := by
  have h := decimal_append [c] cs
  have hc : decimal [c] = c.toNat - '0'.toNat := by
    unfold decimal
    rw [Nat.ofDigitChars_cons, Nat.ofDigitChars_nil]
    omega
  rw [hc] at h
  exact h

theorem decimal_zeros (xs : List Char) (n : ℕ) :
    decimal (xs ++ List.replicate n '0') = decimal xs * 10 ^ n := by
  unfold decimal
  rw [Nat.ofDigitChars_append, Nat.ofDigitChars_replicate_zero, Nat.mul_comm]

theorem decimal_zeros_append (xs : List Char) (n : ℕ) :
    decimal (List.replicate n '0' ++ xs) = decimal xs := by
  have h0 : decimal (List.replicate n '0') = 0 := by
    unfold decimal
    rw [Nat.ofDigitChars_replicate_zero, Nat.mul_zero]
  rw [decimal_append, h0, Nat.zero_mul, Nat.zero_add]

theorem decimal_lt {ds : List Char} (h : ∀ c ∈ ds, c.isDigit = true) :
    decimal ds < 10 ^ ds.length := by
  induction ds with
  | nil => exact Nat.one_pos
  | cons c cs ih =>
    have hc := digit_le_nine (h c (List.mem_cons_self ..))
    have hcs := ih fun d hd => h d (List.mem_cons_of_mem _ hd)
    rw [decimal_cons, List.length_cons, Nat.pow_succ]
    have hm : (c.toNat - '0'.toNat) * 10 ^ cs.length ≤ 9 * 10 ^ cs.length :=
      Nat.mul_le_mul_right _ hc
    omega

/-- A run that does not start with a zero fills its length. -/
theorem pow_le_decimal {c : Char} {cs : List Char} (hc : c.isDigit = true) (h0 : c ≠ '0') :
    10 ^ cs.length ≤ decimal (c :: cs) := by
  have hm : 1 * 10 ^ cs.length ≤ (c.toNat - '0'.toNat) * 10 ^ cs.length :=
    Nat.mul_le_mul_right _ (digit_pos hc h0)
  rw [decimal_cons]
  omega

/-- The last digit is the remainder by ten. -/
theorem decimal_concat_mod {c : Char} (cs : List Char) (hc : c.isDigit = true) (h0 : c ≠ '0') :
    decimal (cs ++ [c]) % 10 ≠ 0 := by
  have hle := digit_le_nine hc
  have hpos := digit_pos hc h0
  have hone : decimal [c] = c.toNat - '0'.toNat := by
    rw [decimal_cons]
    show _ * 1 + 0 = _
    omega
  rw [decimal_append, hone]
  show (decimal cs * 10 ^ 1 + _) % 10 ≠ 0
  omega

/-- A decimal whose last digit stands behind the point is no natural
number. -/
theorem not_natural_of_neg {m k : ℕ} {q : ℤ} (hm : m % 10 ≠ 0) (hq : q < 0) :
    (m : ℚ) * 10 ^ q ≠ k := by
  intro h
  obtain ⟨n, hn⟩ : ∃ n : ℕ, q = -((n : ℤ) + 1) := ⟨(-q - 1).toNat, by omega⟩
  have hten : (10 : ℚ) ^ (n + 1) ≠ 0 := by positivity
  have hz : (10 : ℚ) ^ q = ((10 : ℚ) ^ (n + 1))⁻¹ := by
    rw [hn, zpow_neg]
    norm_cast
  rw [hz, ← div_eq_mul_inv, div_eq_iff hten] at h
  have hnat : m = k * 10 ^ (n + 1) := by exact_mod_cast h
  apply hm
  rw [hnat, Nat.pow_succ, ← Nat.mul_assoc]
  exact Nat.mul_mod_left _ _

/-- With a nonnegative exponent it is one. -/
theorem natural_of_nonneg (m : ℕ) {q : ℤ} (hq : 0 ≤ q) :
    (m : ℚ) * 10 ^ q = ((m * 10 ^ q.toNat : ℕ) : ℚ) := by
  obtain ⟨n, rfl⟩ := Int.eq_ofNat_of_zero_le hq
  push_cast
  rw [Int.toNat_natCast, zpow_natCast]

/-! ## The plain spelling -/

theorem decimal_toDigits (n : ℕ) : decimal (Nat.toDigits 10 n) = n :=
  Nat.ofDigitChars_toDigits (by omega) (by omega)

theorem isDigit_of_mem_toDigits {n : ℕ} {c : Char} (h : c ∈ Nat.toDigits 10 n) :
    c.isDigit = true :=
  Nat.isDigit_of_mem_toDigits (by omega) (by omega) h

/-- The plain spelling has no leading zero. -/
theorem toDigits_lead (n : ℕ) :
    1 < (Nat.toDigits 10 n).length → (Nat.toDigits 10 n).head? ≠ some '0' := by
  induction n using Nat.strongRecOn with
  | ind n ih =>
    rcases Nat.lt_or_ge n 10 with hlt | hge
    · rw [Nat.toDigits_of_lt_base hlt]
      exact fun h => absurd h (by simp)
    · rw [Nat.toDigits_of_base_le (by omega) hge]
      intro _
      have hne : Nat.toDigits 10 (n / 10) ≠ [] := Nat.toDigits_ne_nil
      rw [List.head?_append_of_ne_nil _ hne]
      rcases Nat.lt_or_ge (n / 10) 10 with hlt' | hge'
      · rw [Nat.toDigits_of_lt_base hlt']
        have hpos : 0 < n / 10 := Nat.div_pos hge (by omega)
        have key : ∀ m, m < 10 → 0 < m → m.digitChar ≠ '0' := by decide
        intro h
        exact key _ hlt' hpos (Option.some.inj h)
      · refine ih (n / 10) (Nat.div_lt_self (by omega) (by omega)) ?_
        rw [Nat.toDigits_of_base_le (by omega) hge', List.length_append]
        have := List.length_pos_of_ne_nil (Nat.toDigits_ne_nil (n := n / 10 / 10) (b := 10))
        simp only [List.length_cons, List.length_nil]
        omega

end Lib

end Tensorplate
