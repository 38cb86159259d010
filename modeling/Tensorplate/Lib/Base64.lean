import Mathlib.Algebra.GroupWithZero.Nat
import Mathlib.Tactic.Common

/-!
# Base64 of RFC 4648

A relation between texts and the bytes they stand for. Four characters of
the alphabet stand for three bytes; the last group may end in one pad or in
two, and nothing follows it. The bits that a padded group has left carry
nothing.
-/

namespace Tensorplate

namespace Lib

namespace Base64

/-- The value of a character of the alphabet. -/
def sextet (c : Char) : Option ℕ :=
  let n := c.toNat
  if 65 ≤ n ∧ n ≤ 90 then some (n - 65)
  else if 97 ≤ n ∧ n ≤ 122 then some (n - 97 + 26)
  else if 48 ≤ n ∧ n ≤ 57 then some (n - 48 + 52)
  else if n = 43 then some 62
  else if n = 47 then some 63
  else none

/-- **The text stands for the bytes.** -/
inductive Encodes : List Char → List UInt8 → Prop
  | nil : Encodes [] []
  | group {a b c d : Char} {i j k l : ℕ} {x y z : UInt8} {text : List Char} {bytes : List UInt8}
      (ha : sextet a = some i) (hb : sextet b = some j) (hc : sextet c = some k)
      (hd : sextet d = some l)
      (hvalue : ((i * 64 + j) * 64 + k) * 64 + l = (x.toNat * 256 + y.toNat) * 256 + z.toNat)
      (hrest : Encodes text bytes) : Encodes (a :: b :: c :: d :: text) (x :: y :: z :: bytes)
  | pad {a b c : Char} {i j k s : ℕ} {x y : UInt8}
      (ha : sextet a = some i) (hb : sextet b = some j) (hc : sextet c = some k)
      (hvalue : (i * 64 + j) * 64 + k = (x.toNat * 256 + y.toNat) * 4 + s)
      (hspare : s < 4) : Encodes [a, b, c, '='] [x, y]
  | padTwo {a b : Char} {i j s : ℕ} {x : UInt8}
      (ha : sextet a = some i) (hb : sextet b = some j)
      (hvalue : i * 64 + j = x.toNat * 16 + s) (hspare : s < 16) :
      Encodes [a, b, '=', '='] [x]

/-- A character that may stand in the second half of a group. -/
def Closing (c : Char) : Prop := (sextet c).isSome = true ∨ c = '='

/-- **Groups of four**, each with two characters of the alphabet before two
that are of the alphabet or pads. -/
def Grouped : List Char → Prop
  | [] => True
  | a :: b :: c :: d :: rest =>
    (sextet a).isSome = true ∧ (sextet b).isSome = true ∧ Closing c ∧ Closing d ∧ Grouped rest
  | _ => False

/-- **A pad before another character.** -/
def PadInside (text : List Char) : Prop :=
  ∃ front c back, text = front ++ '=' :: c :: back ∧ c ≠ '='

theorem sextet_lt {c : Char} {i : ℕ} (h : sextet c = some i) : i < 64 := by
  unfold sextet at h
  dsimp only at h
  split_ifs at h <;> simp only [Option.some.injEq] at h <;> omega

theorem sextet_ne {c : Char} {i : ℕ} (h : sextet c = some i) : c ≠ '=' := by
  rintro rfl
  have hpad : sextet '=' = none := by decide
  rw [hpad] at h
  exact absurd h (by simp)

variable {text : List Char} {bytes : List UInt8}

theorem not_padInside_nil : ¬PadInside [] := by
  rintro ⟨front, c, back, h, -⟩
  exact absurd h.symm (by simp)

/-- A pad stands inside a text where it leads it or stands inside the rest. -/
theorem padInside_cons {a : Char} :
    PadInside (a :: text) ↔ (a = '=' ∧ ∃ c back, text = c :: back ∧ c ≠ '=') ∨ PadInside text := by
  constructor
  · rintro ⟨front, c, back, h, hc⟩
    cases front with
    | nil =>
      rw [List.nil_append, List.cons.injEq] at h
      exact .inl ⟨h.1, c, back, h.2, hc⟩
    | cons f front =>
      rw [List.cons_append, List.cons.injEq] at h
      exact .inr ⟨front, c, back, h.2, hc⟩
  · rintro (⟨rfl, c, back, rfl, hc⟩ | ⟨front, c, back, rfl, hc⟩)
    · exact ⟨[], c, back, rfl, hc⟩
    · exact ⟨a :: front, c, back, rfl, hc⟩

theorem padInside_cons_of_ne {a : Char} (h : a ≠ '=') : PadInside (a :: text) ↔ PadInside text := by
  rw [padInside_cons]
  exact ⟨fun hp => hp.resolve_left fun hl => h hl.1, .inr⟩

/-- **What stands for bytes** is in groups, and no pad is inside it. -/
theorem Encodes.shape (h : Encodes text bytes) : Grouped text ∧ ¬PadInside text := by
  have hsome : ∀ {c : Char} {i : ℕ}, sextet c = some i → (sextet c).isSome = true := by
    intro c i hc
    rw [hc]
    rfl
  induction h with
  | nil => exact ⟨trivial, not_padInside_nil⟩
  | group ha hb hc hd _ _ ih =>
    refine ⟨⟨hsome ha, hsome hb, .inl (hsome hc), .inl (hsome hd), ih.1⟩, ?_⟩
    rw [padInside_cons_of_ne (sextet_ne ha), padInside_cons_of_ne (sextet_ne hb),
      padInside_cons_of_ne (sextet_ne hc), padInside_cons_of_ne (sextet_ne hd)]
    exact ih.2
  | pad ha hb hc _ _ =>
    refine ⟨⟨hsome ha, hsome hb, .inl (hsome hc), .inr rfl, trivial⟩, ?_⟩
    rw [padInside_cons_of_ne (sextet_ne ha), padInside_cons_of_ne (sextet_ne hb),
      padInside_cons_of_ne (sextet_ne hc), padInside_cons]
    rintro (⟨-, _, _, h, -⟩ | h)
    · exact absurd h (by simp)
    · exact not_padInside_nil h
  | padTwo ha hb _ _ =>
    refine ⟨⟨hsome ha, hsome hb, .inr rfl, .inr rfl, trivial⟩, ?_⟩
    rw [padInside_cons_of_ne (sextet_ne ha), padInside_cons_of_ne (sextet_ne hb), padInside_cons,
      padInside_cons]
    rintro (⟨-, c, back, h, hc⟩ | ⟨-, _, _, h, -⟩ | h)
    · rw [List.cons.injEq] at h
      exact hc h.1.symm
    · exact absurd h (by simp)
    · exact not_padInside_nil h

end Base64

end Lib

end Tensorplate
