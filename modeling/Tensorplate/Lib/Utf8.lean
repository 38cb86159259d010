import Mathlib.Algebra.GroupWithZero.Nat
import Mathlib.Data.List.Basic
import Mathlib.Tactic.Common

/-!
# Texts by byte offset

A text is a list of characters, and its bytes are their UTF-8 encodings one
after another. `At t i r` says that byte offset `i` of `t` is a character
boundary with `r` behind it: there a byte scanner reads the first character
of `r` if that is ASCII, and a byte above ASCII otherwise. A slice between
two boundaries is the text between them, and there is none elsewhere.
-/

namespace Tensorplate

namespace Lib

namespace Utf8

variable {t r x : List Char} {c : Char} {i j : ℕ}

/-- The bytes of a text. -/
def encode (t : List Char) : List UInt8 := t.flatMap String.utf8EncodeChar

/-- The byte of an ASCII character. -/
def byte (c : Char) : UInt8 := UInt8.ofNat c.toNat

/-- The text behind a byte offset, where that is a character boundary. -/
def dropBytes : List Char → ℕ → Option (List Char)
  | t, 0 => some t
  | [], _ + 1 => none
  | c :: t, n + 1 => if c.utf8Size ≤ n + 1 then dropBytes t (n + 1 - c.utf8Size) else none

/-- The first bytes of a text, where they end at a character boundary. -/
def takeBytes : List Char → ℕ → Option (List Char)
  | _, 0 => some []
  | [], _ + 1 => none
  | c :: t, n + 1 =>
    if c.utf8Size ≤ n + 1 then (takeBytes t (n + 1 - c.utf8Size)).map (c :: ·) else none

/-- **The slice `t[i..j]`**; `none` where a bound is outside the text, off a
character boundary, or past the other. -/
def slice (t : List Char) (i j : ℕ) : Option (List Char) :=
  if i ≤ j then (dropBytes t i).bind fun rest => takeBytes rest (j - i) else none

/-- **A byte offset at a character boundary**, and the text behind it. -/
def At (t : List Char) (i : ℕ) (r : List Char) : Prop :=
  ∃ front, t = front ++ r ∧ (encode front).length = i

/-! ## Encodings -/

theorem encode_cons (c : Char) (t : List Char) :
    encode (c :: t) = String.utf8EncodeChar c ++ encode t := rfl

theorem encode_append (a b : List Char) : encode (a ++ b) = encode a ++ encode b :=
  List.flatMap_append

theorem length_encode_cons (c : Char) (t : List Char) :
    (encode (c :: t)).length = c.utf8Size + (encode t).length := by
  rw [encode_cons, List.length_append, String.length_utf8EncodeChar]

theorem utf8EncodeChar_ascii (h : c.toNat < 128) : String.utf8EncodeChar c = [byte c] := by
  have hle : c.val.toNat ≤ 0x7f := by
    have heq : c.toNat = c.val.toNat := rfl
    omega
  unfold String.utf8EncodeChar
  exact if_pos hle

theorem utf8Size_ascii (h : c.toNat < 128) : c.utf8Size = 1 := by
  rw [← String.length_utf8EncodeChar, utf8EncodeChar_ascii h]
  rfl

/-- The bytes of a longer character are all above ASCII. -/
theorem wide_bytes (h : 128 ≤ c.toNat) : ∀ b ∈ String.utf8EncodeChar c, 128 ≤ b.toNat := by
  have hv : c.toNat = c.val.toNat := rfl
  have hnot : ¬c.val.toNat ≤ 0x7f := by omega
  intro b hb
  unfold String.utf8EncodeChar at hb
  simp only [hnot, if_false] at hb
  split_ifs at hb with h₁ h₂
  · simp only [List.mem_cons, List.not_mem_nil, or_false] at hb
    rcases hb with rfl | rfl
    · rw [UInt8.toNat_ofNat']
      omega
    · rw [UInt8.toNat_ofNat']
      omega
  · simp only [List.mem_cons, List.not_mem_nil, or_false] at hb
    rcases hb with rfl | rfl | rfl
    · rw [UInt8.toNat_ofNat']
      omega
    · rw [UInt8.toNat_ofNat']
      omega
    · rw [UInt8.toNat_ofNat']
      omega
  · simp only [List.mem_cons, List.not_mem_nil, or_false] at hb
    rcases hb with rfl | rfl | rfl | rfl
    · rw [UInt8.toNat_ofNat']
      omega
    · rw [UInt8.toNat_ofNat']
      omega
    · rw [UInt8.toNat_ofNat']
      omega
    · rw [UInt8.toNat_ofNat']
      omega

theorem byte_toNat (h : c.toNat < 128) : (byte c).toNat = c.toNat := by
  unfold byte
  rw [UInt8.toNat_ofNat']
  omega

theorem byte_inj {d : Char} (hc : c.toNat < 128) (hd : d.toNat < 128) : byte c = byte d ↔ c = d := by
  constructor
  · intro h
    have hnat : c.toNat = d.toNat := by
      rw [← byte_toNat hc, ← byte_toNat hd, h]
    exact Char.ext (UInt32.toNat_inj.1 hnat)
  · rintro rfl
    rfl

/-! ## Boundaries -/

theorem at_zero (t : List Char) : At t 0 t := ⟨[], rfl, rfl⟩

/-- The boundary behind the next character. -/
theorem At.next (h : At t i (c :: r)) : At t (i + c.utf8Size) r := by
  obtain ⟨front, rfl, rfl⟩ := h
  refine ⟨front ++ [c], ?_, ?_⟩
  · rw [List.append_assoc]
    rfl
  · rw [encode_append, List.length_append, length_encode_cons]
    rfl

theorem At.next_ascii (h : At t i (c :: r)) (hc : c.toNat < 128) : At t (i + 1) r := by
  have hnext := h.next
  rwa [utf8Size_ascii hc] at hnext

/-- What is read at a boundary before an ASCII character. -/
theorem At.get_ascii (h : At t i (c :: r)) (hc : c.toNat < 128) :
    (encode t)[i]? = some (byte c) := by
  obtain ⟨front, rfl, rfl⟩ := h
  rw [encode_append, encode_cons, utf8EncodeChar_ascii hc, List.getElem?_append_right (Nat.le_refl _),
    Nat.sub_self]
  rfl

theorem At.get_nil (h : At t i []) : (encode t)[i]? = none := by
  obtain ⟨front, rfl, rfl⟩ := h
  rw [List.append_nil]
  exact List.getElem?_eq_none (Nat.le_refl _)

/-- What is read at any byte of a longer character. -/
theorem At.get_wide (h : At t i (c :: r)) (hc : 128 ≤ c.toNat) {k : ℕ} (hk : k < c.utf8Size) :
    ∃ b, (encode t)[i + k]? = some b ∧ 128 ≤ b.toNat := by
  obtain ⟨front, rfl, rfl⟩ := h
  have hlen : k < (String.utf8EncodeChar c).length := by rwa [String.length_utf8EncodeChar]
  refine ⟨(String.utf8EncodeChar c)[k], ?_, wide_bytes hc _ (List.getElem_mem hlen)⟩
  rw [encode_append, encode_cons, List.getElem?_append_right (Nat.le_add_right _ _),
    Nat.add_sub_cancel_left, List.getElem?_append_left hlen, List.getElem?_eq_getElem hlen]

/-- The distance of two boundaries is the size of the text between them. -/
theorem At.offset (hi : At t i (x ++ r)) (hj : At t j r) : j = i + (encode x).length := by
  obtain ⟨front, hfront, rfl⟩ := hi
  obtain ⟨back, hback, rfl⟩ := hj
  have heq : back = front ++ x := by
    have happend : back ++ r = (front ++ x) ++ r := by
      rw [← hback, hfront, List.append_assoc]
    exact List.append_cancel_right happend
  rw [heq, encode_append, List.length_append]

/-! ## Slices -/

theorem utf8Size_pos (c : Char) : 0 < c.utf8Size := by
  rw [← String.length_utf8EncodeChar]
  exact List.length_pos_iff.2 String.utf8EncodeChar_ne_nil

theorem dropBytes_append (front : List Char) (r : List Char) :
    dropBytes (front ++ r) (encode front).length = some r := by
  induction front with
  | nil =>
    show dropBytes r 0 = some r
    rw [dropBytes]
  | cons c front ih =>
    have hpos := utf8Size_pos c
    obtain ⟨n, hn⟩ : ∃ n, (encode (c :: front)).length = n + 1 := by
      refine ⟨(encode (c :: front)).length - 1, ?_⟩
      rw [length_encode_cons]
      omega
    rw [hn, List.cons_append, dropBytes, ← hn, length_encode_cons, if_pos (Nat.le_add_right _ _),
      Nat.add_sub_cancel_left, ih]

theorem takeBytes_append (x r : List Char) :
    takeBytes (x ++ r) (encode x).length = some x := by
  induction x with
  | nil =>
    show takeBytes r 0 = some []
    rw [takeBytes]
  | cons c x ih =>
    have hpos := utf8Size_pos c
    obtain ⟨n, hn⟩ : ∃ n, (encode (c :: x)).length = n + 1 := by
      refine ⟨(encode (c :: x)).length - 1, ?_⟩
      rw [length_encode_cons]
      omega
    rw [hn, List.cons_append, takeBytes, ← hn, length_encode_cons, if_pos (Nat.le_add_right _ _),
      Nat.add_sub_cancel_left, ih]
    rfl

/-- **The slice between two boundaries.** -/
theorem At.slice (hi : At t i (x ++ r)) (hj : At t j r) : slice t i j = some x := by
  have hoffset := hi.offset hj
  obtain ⟨front, rfl, rfl⟩ := hi
  unfold Utf8.slice
  rw [hoffset, if_pos (Nat.le_add_right _ _), dropBytes_append, Option.bind_some,
    Nat.add_sub_cancel_left, takeBytes_append]

end Utf8

end Lib

end Tensorplate
