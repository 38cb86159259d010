import Tensorplate.Lib.Base64
import Tensorplate.Lib.Except
import Tensorplate.Serving.Model.Base64

/-!
# What the base64 decoder takes

The decoder reads each group of four by itself. It takes every text of RFC
4648 for the bytes the text stands for, but a group may also hold a pad
before a character, or be followed by another group behind its pads: such a
text is taken where it should be refused.
-/

namespace Tensorplate

namespace Serialization

open Router (decodeError)
open Lib.Base64

/-! ## The tables -/

theorem mem_alphabet {c : Char} {i : ℕ} (h : sextet c = some i) : c ∈ kBase64Alphabet := by
  have hall : ∀ n < 123, (sextet (Char.ofNat n)).isSome = true → Char.ofNat n ∈ kBase64Alphabet := by
    decide
  have hn : c.toNat < 123 := by
    unfold sextet at h
    dsimp only at h
    split_ifs at h <;> omega
  have hc : Char.ofNat c.toNat = c := Char.ofNat_toNat c
  have := hall c.toNat hn (by rw [hc, h]; rfl)
  rwa [hc] at this

theorem idxOf_alphabet (c : Char) : kBase64Alphabet.idxOf? c = sextet c := by
  by_cases hmem : c ∈ kBase64Alphabet
  · have hall : kBase64Alphabet.all (fun c => kBase64Alphabet.idxOf? c == sextet c) := by
      decide +kernel
    exact beq_iff_eq.1 (List.all_eq_true.1 hall c hmem)
  · rw [List.idxOf?_eq_none_iff.2 hmem]
    rcases h : sextet c with _ | i
    · rfl
    · exact absurd (mem_alphabet h) hmem

theorem table_of_sextet {c : Char} {i : ℕ} (h : sextet c = some i) :
    base64DecodeTable c = (i : ℤ) := by
  unfold base64DecodeTable
  rw [idxOf_alphabet, h]

theorem table_of_none {c : Char} (h : sextet c = none) : base64DecodeTable c = -1 := by
  unfold base64DecodeTable
  rw [idxOf_alphabet, h]

theorem closing_of_sextet {c : Char} {i : ℕ} (h : sextet c = some i) :
    base64Closing c = (i : ℤ) := by
  unfold base64Closing
  rw [if_neg (sextet_ne h), table_of_sextet h]

theorem closing_pad : base64Closing '=' = -2 := rfl

theorem sextet_char {i : ℕ} (h : i < 64) : sextet (base64Char i) = some i := by
  have hall : ∀ i < 64, sextet (base64Char i) = some i := by decide
  exact hall i h

/-! ## Words of 24 bits -/

section

variable {i j k l : ℕ}

/-- A multiple of a power of two and what fits below it do not overlap. -/
theorem or_eq_add {high low p : ℕ} (n : ℕ) (hp : p = 2 ^ n) (h : low < p) :
    high * p ||| low = high * p + low := by
  subst hp
  rw [← Nat.shiftLeft_eq, Nat.shiftLeft_add_eq_or_of_lt h]

theorem word_two (hj : j < 64) : (i <<< 18) ||| (j <<< 12) = (i * 64 + j) * 4096 := by
  simp only [Nat.shiftLeft_eq]
  rw [or_eq_add 18 rfl (by omega)]
  omega

theorem word_three (hj : j < 64) (hk : k < 64) :
    (i <<< 18) ||| (j <<< 12) ||| (k <<< 6) = ((i * 64 + j) * 64 + k) * 64 := by
  rw [word_two hj, Nat.shiftLeft_eq, or_eq_add 12 (by decide) (by omega)]
  omega

theorem word_four (hj : j < 64) (hk : k < 64) (hl : l < 64) :
    (i <<< 18) ||| (j <<< 12) ||| (k <<< 6) ||| l = ((i * 64 + j) * 64 + k) * 64 + l := by
  rw [word_three hj hk, or_eq_add 6 (by decide) hl]

theorem bytes_two {a b : ℕ} (hb : b < 256) : (a <<< 16) ||| (b <<< 8) = (a * 256 + b) * 256 := by
  simp only [Nat.shiftLeft_eq]
  rw [or_eq_add 16 rfl (by omega)]
  omega

theorem bytes_three {a b c : ℕ} (hb : b < 256) (hc : c < 256) :
    (a <<< 16) ||| (b <<< 8) ||| c = (a * 256 + b) * 256 + c := by
  rw [bytes_two hb, or_eq_add 8 (by decide) hc]

theorem and_63 (v : ℕ) : v &&& 0x3F = v % 64 := Nat.and_two_pow_sub_one_eq_mod v 6

theorem and_255 (v : ℕ) : v &&& 0xFF = v % 256 := Nat.and_two_pow_sub_one_eq_mod v 8

theorem byte_eq {v : ℕ} {x : UInt8} (h : v % 256 = x.toNat) : UInt8.ofNat (v &&& 0xFF) = x := by
  rw [and_255, h, UInt8.ofNat_toNat]

end

/-! ## Groups -/

section

variable {a b c d : Char} {i j k l : ℕ} {x y z : UInt8}

/-- **Four characters of the alphabet** give the three bytes of their word. -/
theorem decodeGroup_four (ha : sextet a = some i) (hb : sextet b = some j)
    (hc : sextet c = some k) (hd : sextet d = some l)
    (hv : ((i * 64 + j) * 64 + k) * 64 + l = (x.toNat * 256 + y.toNat) * 256 + z.toNat) :
    base64DecodeGroup a b c d = .ok [x, y, z] := by
  have hx := x.toNat_lt
  have hy := y.toNat_lt
  have hz := z.toNat_lt
  have h₁ : UInt8.ofNat ((((x.toNat * 256 + y.toNat) * 256 + z.toNat) >>> 16) &&& 0xFF) = x :=
    byte_eq (by rw [Nat.shiftRight_eq_div_pow]; omega)
  have h₂ : UInt8.ofNat ((((x.toNat * 256 + y.toNat) * 256 + z.toNat) >>> 8) &&& 0xFF) = y :=
    byte_eq (by rw [Nat.shiftRight_eq_div_pow]; omega)
  have h₃ : UInt8.ofNat (((x.toNat * 256 + y.toNat) * 256 + z.toNat) &&& 0xFF) = z :=
    byte_eq (by omega)
  unfold base64DecodeGroup
  simp only [table_of_sextet ha, table_of_sextet hb, closing_of_sextet hc, closing_of_sextet hd]
  rw [if_neg (by omega)]
  simp only [ge_iff_le, Int.natCast_nonneg, if_true, Int.toNat_natCast]
  rw [word_four (sextet_lt hb) (sextet_lt hc) (sextet_lt hd), hv, h₁, h₂, h₃]
  rfl

/-- One pad: two bytes, whatever the two bits left are. -/
theorem decodeGroup_pad {spare : ℕ} (ha : sextet a = some i) (hb : sextet b = some j)
    (hc : sextet c = some k)
    (hv : (i * 64 + j) * 64 + k = (x.toNat * 256 + y.toNat) * 4 + spare) (hs : spare < 4) :
    base64DecodeGroup a b c '=' = .ok [x, y] := by
  have hx := x.toNat_lt
  have hy := y.toNat_lt
  have h₁ : UInt8.ofNat (((((i * 64 + j) * 64 + k) * 64) >>> 16) &&& 0xFF) = x :=
    byte_eq (by rw [Nat.shiftRight_eq_div_pow]; omega)
  have h₂ : UInt8.ofNat (((((i * 64 + j) * 64 + k) * 64) >>> 8) &&& 0xFF) = y :=
    byte_eq (by rw [Nat.shiftRight_eq_div_pow]; omega)
  have hpad : ¬(0 : ℤ) ≤ -2 := by decide
  unfold base64DecodeGroup
  simp only [table_of_sextet ha, table_of_sextet hb, closing_of_sextet hc, closing_pad]
  rw [if_neg (by omega)]
  simp only [ge_iff_le, Int.natCast_nonneg, if_true, if_neg hpad, Int.toNat_natCast]
  rw [word_three (sextet_lt hb) (sextet_lt hc), h₁, h₂]
  rfl

/-- Two pads: one byte. -/
theorem decodeGroup_padTwo {spare : ℕ} (ha : sextet a = some i) (hb : sextet b = some j)
    (hv : i * 64 + j = x.toNat * 16 + spare) (hs : spare < 16) :
    base64DecodeGroup a b '=' '=' = .ok [x] := by
  have hx := x.toNat_lt
  have h₁ : UInt8.ofNat ((((i * 64 + j) * 4096) >>> 16) &&& 0xFF) = x :=
    byte_eq (by rw [Nat.shiftRight_eq_div_pow]; omega)
  have hpad : ¬(0 : ℤ) ≤ -2 := by decide
  unfold base64DecodeGroup
  simp only [table_of_sextet ha, table_of_sextet hb, closing_pad]
  rw [if_neg (by omega)]
  simp only [ge_iff_le, if_neg hpad, Int.toNat_natCast]
  rw [word_two (sextet_lt hb), h₁]
  rfl

theorem table_neg : base64DecodeTable c < 0 ↔ ¬(sextet c).isSome = true := by
  rcases h : sextet c with _ | i
  · rw [table_of_none h]
    simp
  · rw [table_of_sextet h]
    simp

theorem closing_neg : (base64Closing c < 0 ∧ base64Closing c ≠ -2) ↔ ¬Closing c := by
  unfold Closing
  by_cases hpad : c = '='
  · subst hpad
    rw [closing_pad]
    simp
  · unfold base64Closing
    rw [if_neg hpad]
    rcases h : sextet c with _ | i
    · rw [table_of_none h]
      simp [hpad]
    · rw [table_of_sextet h]
      simp

/-- **What a group takes**: two characters of the alphabet, then two that
are of the alphabet or pads, in any order. -/
theorem decodeGroup_ok_iff : (∃ bytes, base64DecodeGroup a b c d = .ok bytes) ↔
    (sextet a).isSome = true ∧ (sextet b).isSome = true ∧ Closing c ∧ Closing d := by
  have hbad : (base64DecodeTable a < 0 ∨ base64DecodeTable b < 0 ∨
      (base64Closing c < 0 ∧ base64Closing c ≠ -2) ∨
      (base64Closing d < 0 ∧ base64Closing d ≠ -2)) ↔
      ¬((sextet a).isSome = true ∧ (sextet b).isSome = true ∧ Closing c ∧ Closing d) := by
    rw [table_neg, table_neg, closing_neg, closing_neg]
    tauto
  unfold base64DecodeGroup
  dsimp only
  by_cases h : (sextet a).isSome = true ∧ (sextet b).isSome = true ∧ Closing c ∧ Closing d
  · rw [if_neg fun hb => hbad.1 hb h]
    exact ⟨fun _ => h, fun _ => ⟨_, rfl⟩⟩
  · rw [if_pos (hbad.2 h)]
    exact ⟨fun ⟨_, he⟩ => (by cases he), fun h' => absurd h' h⟩

end

/-! ## Texts -/

section

variable {text : List Char} {bytes : List UInt8}

theorem decodeGroups_cons {a b c d : Char} {rest : List Char} {bytes : List UInt8} :
    base64DecodeGroups (a :: b :: c :: d :: rest) = .ok bytes ↔
      ∃ first more, base64DecodeGroup a b c d = .ok first ∧
        base64DecodeGroups rest = .ok more ∧ bytes = first ++ more := by
  have hunfold : base64DecodeGroups (a :: b :: c :: d :: rest) = (do
      let first ← base64DecodeGroup a b c d
      let more ← base64DecodeGroups rest
      return first ++ more) := rfl
  rw [hunfold, Lib.bind_eq_ok]
  constructor
  · rintro ⟨first, hfirst, hrest⟩
    obtain ⟨more, hmore, heq⟩ := Lib.bind_eq_ok.1 hrest
    exact ⟨first, more, hfirst, hmore, (Except.ok.inj heq).symm⟩
  · rintro ⟨first, more, hfirst, hmore, rfl⟩
    exact ⟨first, hfirst, Lib.bind_eq_ok.2 ⟨more, hmore, rfl⟩⟩

/-- **The decoder reads what RFC 4648 writes.** -/
theorem decodeGroups_of_encodes (h : Encodes text bytes) :
    text.length % 4 = 0 ∧ base64DecodeGroups text = .ok bytes := by
  induction h with
  | nil => exact ⟨rfl, rfl⟩
  | group ha hb hc hd hv _ ih =>
    refine ⟨?_, decodeGroups_cons.2 ⟨_, _, decodeGroup_four ha hb hc hd hv, ih.2, rfl⟩⟩
    have := ih.1
    simp only [List.length_cons]
    omega
  | pad ha hb hc hv hs =>
    exact ⟨by simp, decodeGroups_cons.2 ⟨_, _, decodeGroup_pad ha hb hc hv hs, rfl, rfl⟩⟩
  | padTwo ha hb hv hs =>
    exact ⟨by simp, decodeGroups_cons.2 ⟨_, _, decodeGroup_padTwo ha hb hv hs, rfl, rfl⟩⟩

/-- **The decoder takes any text in groups**, wherever its pads stand. -/
theorem decodeGroups_ok_iff : ∀ text : List Char,
    (text.length % 4 = 0 ∧ ∃ bytes, base64DecodeGroups text = .ok bytes) ↔ Grouped text
  | [] => ⟨fun _ => trivial, fun _ => ⟨rfl, [], rfl⟩⟩
  | [_] => ⟨fun h => absurd h.1 (by simp), False.elim⟩
  | [_, _] => ⟨fun h => absurd h.1 (by simp), False.elim⟩
  | [_, _, _] => ⟨fun h => absurd h.1 (by simp), False.elim⟩
  | a :: b :: c :: d :: rest => by
    have ih := decodeGroups_ok_iff rest
    have hgroup := @decodeGroup_ok_iff a b c d
    have hlen : (a :: b :: c :: d :: rest).length % 4 = 0 ↔ rest.length % 4 = 0 := by
      simp only [List.length_cons]
      omega
    rw [hlen]
    unfold Grouped
    constructor
    · rintro ⟨hl, bytes, hb⟩
      obtain ⟨first, more, hfirst, hmore, -⟩ := decodeGroups_cons.1 hb
      obtain ⟨h₁, h₂, h₃, h₄⟩ := hgroup.1 ⟨first, hfirst⟩
      exact ⟨h₁, h₂, h₃, h₄, ih.1 ⟨hl, more, hmore⟩⟩
    · rintro ⟨h₁, h₂, h₃, h₄, hrest⟩
      obtain ⟨first, hfirst⟩ := hgroup.2 ⟨h₁, h₂, h₃, h₄⟩
      obtain ⟨hl, more, hmore⟩ := ih.2 hrest
      exact ⟨hl, _, decodeGroups_cons.2 ⟨first, more, hfirst, hmore, rfl⟩⟩

/-- A character of the second half that is no pad. -/
theorem Closing.sextet {c : Char} (h : Closing c) (hne : c ≠ '=') :
    ∃ i, Lib.Base64.sextet c = some i :=
  Option.isSome_iff_exists.1 (h.resolve_right hne)

/-- **A text in groups with no pad inside** is one of RFC 4648. -/
theorem encodes_of_grouped : ∀ {text : List Char}, Grouped text → ¬PadInside text →
    ∃ bytes, Encodes text bytes
  | [], _, _ => ⟨[], .nil⟩
  | [_], h, _ => h.elim
  | [_, _], h, _ => h.elim
  | [_, _, _], h, _ => h.elim
  | a :: b :: c :: d :: rest, ⟨ha, hb, hc, hd, hrest⟩, hno => by
    obtain ⟨i, hi⟩ := Option.isSome_iff_exists.1 ha
    obtain ⟨j, hj⟩ := Option.isSome_iff_exists.1 hb
    have hi' := sextet_lt hi
    have hj' := sextet_lt hj
    rw [padInside_cons_of_ne (sextet_ne hi), padInside_cons_of_ne (sextet_ne hj)] at hno
    -- behind the pad of a group no other group can stand
    have hend : d = '=' → rest = [] := by
      rintro rfl
      cases hr : rest with
      | nil => rfl
      | cons e tail =>
        subst hr
        refine absurd ⟨[c], e, tail, rfl, ?_⟩ hno
        match tail, hrest with
        | _ :: _ :: _ :: _, he =>
          obtain ⟨v, hv⟩ := Option.isSome_iff_exists.1 he.1
          exact sextet_ne hv
    by_cases hcp : c = '='
    · subst hcp
      by_cases hdp : d = '='
      · subst hdp
        rw [hend rfl]
        refine ⟨[UInt8.ofNat ((i * 64 + j) / 16)],
          .padTwo (s := (i * 64 + j) % 16) hi hj ?_ (by omega)⟩
        rw [UInt8.toNat_ofNat_of_lt' (show _ < 256 by omega)]
        omega
      · exact absurd ⟨[], d, rest, rfl, hdp⟩ hno
    · obtain ⟨k, hk⟩ := Closing.sextet hc hcp
      have hk' := sextet_lt hk
      by_cases hdp : d = '='
      · subst hdp
        rw [hend rfl]
        refine ⟨[UInt8.ofNat (((i * 64 + j) * 64 + k) / 1024),
          UInt8.ofNat (((i * 64 + j) * 64 + k) / 4 % 256)],
          .pad (s := ((i * 64 + j) * 64 + k) % 4) hi hj hk ?_ (by omega)⟩
        rw [UInt8.toNat_ofNat_of_lt' (show _ < 256 by omega), UInt8.toNat_ofNat_of_lt' (show _ < 256 by omega)]
        omega
      · obtain ⟨l, hl⟩ := Closing.sextet hd hdp
        have hl' := sextet_lt hl
        rw [padInside_cons_of_ne hcp, padInside_cons_of_ne hdp] at hno
        obtain ⟨bytes, hbytes⟩ := encodes_of_grouped hrest hno
        refine ⟨UInt8.ofNat ((((i * 64 + j) * 64 + k) * 64 + l) / 65536) ::
          UInt8.ofNat ((((i * 64 + j) * 64 + k) * 64 + l) / 256 % 256) ::
          UInt8.ofNat ((((i * 64 + j) * 64 + k) * 64 + l) % 256) :: bytes,
          .group hi hj hk hl ?_ hbytes⟩
        rw [UInt8.toNat_ofNat_of_lt' (show _ < 256 by omega), UInt8.toNat_ofNat_of_lt' (show _ < 256 by omega),
          UInt8.toNat_ofNat_of_lt' (show _ < 256 by omega)]
        omega

/-! ## Both ways -/

theorem and_63_lt (v : ℕ) : v &&& 0x3F < 64 := by
  rw [and_63]
  omega

/-- **The encoder writes RFC 4648.** -/
theorem encodes_base64Encode : ∀ bytes : List UInt8, Encodes (base64Encode bytes) bytes
  | [] => .nil
  | [a] => by
    have ha := a.toNat_lt
    refine .padTwo (s := 0) (sextet_char (and_63_lt _)) (sextet_char (and_63_lt _)) ?_ (by omega)
    simp only [and_63, Nat.shiftLeft_eq, Nat.shiftRight_eq_div_pow]
    omega
  | [a, b] => by
    have ha := a.toNat_lt
    have hb := b.toNat_lt
    refine .pad (s := 0) (sextet_char (and_63_lt _)) (sextet_char (and_63_lt _))
      (sextet_char (and_63_lt _)) ?_ (by omega)
    rw [bytes_two (by omega)]
    simp only [and_63, Nat.shiftRight_eq_div_pow]
    omega
  | a :: b :: c :: rest => by
    have ha := a.toNat_lt
    have hb := b.toNat_lt
    have hc := c.toNat_lt
    refine .group (sextet_char (and_63_lt _)) (sextet_char (and_63_lt _))
      (sextet_char (and_63_lt _)) (sextet_char (and_63_lt _)) ?_ (encodes_base64Encode rest)
    rw [bytes_three (by omega) (by omega)]
    simp only [and_63, Nat.shiftRight_eq_div_pow]
    omega

theorem not_space_of_sextet {c : Char} {i : ℕ} (h : sextet c = some i) : isBase64Space c = false := by
  have hall : kBase64Alphabet.all (fun c => !isBase64Space c) := by decide +kernel
  have hc := List.all_eq_true.1 hall c (mem_alphabet h)
  simpa using hc

/-- What stands for bytes has no space in it. -/
theorem compacted_of_encodes (h : Encodes text bytes) : compacted text = text := by
  have hpad : isBase64Space '=' = false := by decide
  refine List.filter_eq_self.2 ?_
  induction h with
  | nil => nofun
  | group ha hb hc hd _ _ ih =>
    simp only [List.forall_mem_cons, not_space_of_sextet ha, not_space_of_sextet hb,
      not_space_of_sextet hc, not_space_of_sextet hd, Bool.not_false, true_and]
    exact ih
  | pad ha hb hc _ _ =>
    simp [not_space_of_sextet ha, not_space_of_sextet hb, not_space_of_sextet hc, hpad]
  | padTwo ha hb _ _ => simp [not_space_of_sextet ha, not_space_of_sextet hb, hpad]

/-- The decoder takes a text of RFC 4648, spaces apart, for its bytes. -/
theorem base64Decode_of_encodes (h : Encodes (compacted text) bytes) :
    base64Decode text = .ok bytes := by
  obtain ⟨hlen, hbytes⟩ := decodeGroups_of_encodes h
  unfold base64Decode
  rw [if_neg (by omega), hbytes]

theorem base64Decode_base64Encode (bytes : List UInt8) :
    base64Decode (base64Encode bytes) = .ok bytes := by
  have henc := encodes_base64Encode bytes
  refine base64Decode_of_encodes ?_
  rw [compacted_of_encodes henc]
  exact henc

/-- The decoder takes what stands in groups, spaces apart, and nothing else. -/
theorem base64Decode_ok_iff :
    (∃ bytes, base64Decode text = .ok bytes) ↔ Grouped (compacted text) := by
  rw [← decodeGroups_ok_iff]
  unfold base64Decode
  by_cases hlen : (compacted text).length % 4 = 0
  · rw [if_neg (by omega)]
    exact ⟨fun h => ⟨hlen, h⟩, fun h => h.2⟩
  · rw [if_pos hlen]
    exact ⟨fun ⟨_, h⟩ => (by cases h), fun h => absurd h.1 hlen⟩

/-- **The decoder is one of RFC 4648 at a text**: it accepts exactly where
the text, spaces apart, stands for bytes, and returns those bytes. -/
def Decodes (text : List Char) : Prop :=
  ∀ bytes, base64Decode text = .ok bytes ↔ Encodes (compacted text) bytes

/-- **Base64 goes round, and the decoder fails only where a pad is inside.**
Every byte string is read back from its text. At a text the decoder does
what RFC 4648 asks exactly where the text is not in groups of four, so that
it is refused anyway, or has no pad before another character. -/
theorem base64_decodes_iff (bytes : List UInt8) (text : List Char) :
    base64Decode (base64Encode bytes) = .ok bytes ∧
      (Decodes text ↔ (Grouped (compacted text) → ¬PadInside (compacted text))) := by
  refine ⟨base64Decode_base64Encode bytes, ?_, ?_⟩
  · intro hdec hgroup
    obtain ⟨bytes, hok⟩ := base64Decode_ok_iff.2 hgroup
    exact ((hdec bytes).1 hok).shape.2
  · intro hno bytes
    refine ⟨fun hok => ?_, base64Decode_of_encodes⟩
    have hgroup := base64Decode_ok_iff.1 ⟨bytes, hok⟩
    obtain ⟨bytes', henc⟩ := encodes_of_grouped hgroup (hno hgroup)
    have hsame := hok.symm.trans (base64Decode_of_encodes henc)
    rwa [Except.ok.inj hsame]

/-- **A pad before a character is taken**: `AA=A` gives two bytes. -/
theorem pad_inside_decoded : ¬Decodes ['A', 'A', '=', 'A'] := by
  intro hdec
  have hok : base64Decode ['A', 'A', '=', 'A'] = .ok [0, 0] := by decide
  refine ((hdec _).1 hok).shape.2 ⟨['A', 'A'], 'A', [], by decide, by decide⟩

end

end Serialization

end Tensorplate
