import Mathlib.Algebra.GroupWithZero.Nat
import Mathlib.Data.List.Basic
import Mathlib.Data.List.Infix

/-!
# The first occurrence of a pattern

`cutAt pat text` is what stands before and behind the first occurrence of a
pattern. Text that is appended does not move an occurrence that was found,
and one that appears only then ends behind the old text.
-/

namespace Tensorplate

namespace Lib

variable {α : Type*} [DecidableEq α] {pat text before after more : List α}

/-- What stands before and behind the first occurrence of `pat`. -/
def cutAt (pat : List α) : List α → Option (List α × List α)
  | [] => if pat = [] then some ([], []) else none
  | x :: xs =>
    if pat.isPrefixOf (x :: xs) then some ([], (x :: xs).drop pat.length)
    else (cutAt pat xs).map fun p => (x :: p.1, p.2)

/-- **What a cut is.** -/
theorem cutAt_eq_some (h : cutAt pat text = some (before, after)) :
    text = before ++ (pat ++ after) := by
  induction text generalizing before with
  | nil =>
    rw [cutAt] at h
    split_ifs at h with hp
    · simp only [Option.some.injEq, Prod.mk.injEq] at h
      obtain ⟨rfl, rfl⟩ := h
      rw [hp]
      rfl
  | cons x xs ih =>
    rw [cutAt] at h
    split_ifs at h with hp
    · simp only [Option.some.injEq, Prod.mk.injEq] at h
      obtain ⟨rfl, rfl⟩ := h
      obtain ⟨back, hback⟩ := List.isPrefixOf_iff_prefix.1 hp
      rw [← hback]
      simp
    · rw [Option.map_eq_some_iff] at h
      obtain ⟨p, hp', hpair⟩ := h
      simp only [Prod.mk.injEq] at hpair
      obtain ⟨rfl, rfl⟩ := hpair
      rw [List.cons_append, ← ih hp']

/-- The cut is at the first occurrence. -/
theorem cutAt_first (h : cutAt pat text = some (before, after)) {b a : List α}
    (hb : text = b ++ (pat ++ a)) : before.length ≤ b.length := by
  induction text generalizing before b with
  | nil =>
    rw [cutAt] at h
    split_ifs at h
    simp only [Option.some.injEq, Prod.mk.injEq] at h
    rw [← h.1]
    exact Nat.zero_le _
  | cons x xs ih =>
    rw [cutAt] at h
    split_ifs at h with hp
    · simp only [Option.some.injEq, Prod.mk.injEq] at h
      rw [← h.1]
      exact Nat.zero_le _
    · rw [Option.map_eq_some_iff] at h
      obtain ⟨p, hp', hpair⟩ := h
      simp only [Prod.mk.injEq] at hpair
      obtain ⟨rfl, rfl⟩ := hpair
      cases b with
      | nil =>
        refine absurd (List.isPrefixOf_iff_prefix.2 ?_) hp
        exact ⟨a, by rw [hb]; rfl⟩
      | cons y ys =>
        rw [List.cons_append, List.cons.injEq] at hb
        have := ih hp' hb.2
        simp only [List.length_cons]
        omega

/-- A text that has an occurrence is cut. -/
theorem cutAt_isSome (pat b a : List α) : ∃ p, cutAt pat (b ++ (pat ++ a)) = some p := by
  induction b with
  | nil =>
    rw [List.nil_append]
    cases hl : pat ++ a with
    | nil =>
      have : pat = [] := (List.append_eq_nil_iff.1 hl).1
      exact ⟨([], []), by rw [cutAt, if_pos this]⟩
    | cons x xs =>
      refine ⟨([], (x :: xs).drop pat.length), ?_⟩
      rw [cutAt, if_pos]
      exact List.isPrefixOf_iff_prefix.2 ⟨a, hl⟩
  | cons y ys ih =>
    obtain ⟨p, hp⟩ := ih
    rw [List.cons_append, cutAt]
    split_ifs
    · exact ⟨_, rfl⟩
    · exact ⟨_, by rw [hp]; rfl⟩

theorem cutAt_eq_none (h : cutAt pat text = none) (b a : List α) : text ≠ b ++ (pat ++ a) := by
  intro heq
  obtain ⟨p, hp⟩ := cutAt_isSome pat b a
  rw [← heq, h] at hp
  cases hp

/-- **The cut is the first occurrence**, and the only thing that is. -/
theorem cutAt_unique (hb : ∀ b a, before ++ (pat ++ after) = b ++ (pat ++ a) →
    before.length ≤ b.length) : cutAt pat (before ++ (pat ++ after)) = some (before, after) := by
  obtain ⟨⟨b, a⟩, hcut⟩ := cutAt_isSome pat before after
  have heq := cutAt_eq_some hcut
  have h₁ := cutAt_first hcut rfl
  have h₂ := hb b a heq
  have hlen : before.length = b.length := by omega
  obtain ⟨rfl, hrest⟩ := List.append_inj heq hlen
  rw [hcut, List.append_cancel_left hrest]

omit [DecidableEq α] in
/-- An occurrence that ends within the first part is one of the first part. -/
theorem occurs_of_le {b a : List α} (h : text ++ more = b ++ (pat ++ a))
    (hle : b.length + pat.length ≤ text.length) : ∃ a', text = b ++ (pat ++ a') := by
  have hboth : b ++ pat <+: text ++ more := ⟨a, by rw [h, List.append_assoc]⟩
  have hlen : (b ++ pat).length ≤ text.length := by rwa [List.length_append]
  obtain ⟨a', ha'⟩ := List.prefix_of_prefix_length_le hboth (List.prefix_append text more) hlen
  exact ⟨a', by rw [← ha', List.append_assoc]⟩

/-- Appended text does not move a cut. -/
theorem cutAt_append (h : cutAt pat text = some (before, after)) (more : List α) :
    cutAt pat (text ++ more) = some (before, after ++ more) := by
  have htext := cutAt_eq_some h
  have hsplit : text ++ more = before ++ (pat ++ (after ++ more)) := by
    rw [htext, List.append_assoc, List.append_assoc]
  rw [hsplit]
  refine cutAt_unique fun b a hb => ?_
  by_contra hlt
  have hle : b.length + pat.length ≤ text.length := by
    rw [htext]
    simp only [List.length_append]
    omega
  obtain ⟨a', ha'⟩ := occurs_of_le (hsplit.trans hb) hle
  exact hlt (cutAt_first h ha')

/-- Text behind a cut can be taken away. -/
theorem cutAt_shorten (h : cutAt pat text = some (before, after ++ more)) :
    cutAt pat (before ++ (pat ++ after)) = some (before, after) := by
  refine cutAt_unique fun b a hb => ?_
  refine cutAt_first h (a := a ++ more) ?_
  rw [cutAt_eq_some h, ← List.append_assoc pat, ← List.append_assoc before, hb, List.append_assoc,
    List.append_assoc]

/-- An occurrence that appended text makes ends behind the old text. -/
theorem lt_of_cutAt_append (h : cutAt pat text = none)
    (hmore : cutAt pat (text ++ more) = some (before, after)) :
    text.length < before.length + pat.length := by
  by_contra hle
  obtain ⟨a', ha'⟩ := occurs_of_le (cutAt_eq_some hmore) (by omega)
  exact cutAt_eq_none h before a' ha'

end Lib

end Tensorplate
