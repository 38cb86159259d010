import Tensorplate.Lib.JsonParser
import Tensorplate.Protocol.Model.ObjectMembers

/-!
# The scanners of `object_members`

The scanners look at single bytes. Read against the grammar, that is enough:
each of them ends at the character boundary where the derivation of what it
scans ends, whatever strings and brackets stand inside.
-/

namespace Tensorplate

namespace Protocol

namespace BundleProfile

open Lib Lib.Json Lib.Utf8

variable {text t r : List Char} {i : ℕ}

/-! ## Single steps -/

section Steps

variable {bytes : List UInt8} {b : UInt8}

theorem skipWhitespace_space (h : bytes[i]? = some b) (hb : isSpace b = true) :
    skipWhitespace bytes i = skipWhitespace bytes (i + 1) := by
  rw [skipWhitespace]
  split
  · rename_i b' h'
    obtain rfl := Option.some.inj (h.symm.trans h')
    rw [if_pos hb]
  · rename_i h'
    exact absurd (h.symm.trans h') (by simp)

theorem skipWhitespace_stop (h : ∀ b, bytes[i]? = some b → isSpace b = false) :
    skipWhitespace bytes i = i := by
  rw [skipWhitespace]
  split
  · rename_i b' h'
    rw [if_neg (by simp [h b' h'])]
  · rfl

theorem stringEnd_escape (h : bytes[i]? = some (byte '\\')) :
    stringEnd bytes i = stringEnd bytes (i + 2) := by
  rw [stringEnd]
  split
  · rename_i b' h'
    obtain rfl := Option.some.inj (h.symm.trans h')
    rw [if_pos rfl]
  · rename_i h'
    exact absurd (h.symm.trans h') (by simp)

theorem stringEnd_quote (h : bytes[i]? = some (byte '"')) : stringEnd bytes i = i + 1 := by
  rw [stringEnd]
  split
  · rename_i b' h'
    obtain rfl := Option.some.inj (h.symm.trans h')
    rw [if_neg (by decide), if_pos rfl]
  · rename_i h'
    exact absurd (h.symm.trans h') (by simp)

theorem stringEnd_plain (h : bytes[i]? = some b) (hb : b ≠ byte '\\') (hq : b ≠ byte '"') :
    stringEnd bytes i = stringEnd bytes (i + 1) := by
  rw [stringEnd]
  split
  · rename_i b' h'
    obtain rfl := Option.some.inj (h.symm.trans h')
    rw [if_neg hb, if_neg hq]
  · rename_i h'
    exact absurd (h.symm.trans h') (by simp)

theorem tokenEnd_step (h : bytes[i]? = some b) (hb : endsToken b = false) :
    tokenEnd bytes i = tokenEnd bytes (i + 1) := by
  rw [tokenEnd]
  split
  · rename_i b' h'
    obtain rfl := Option.some.inj (h.symm.trans h')
    rw [if_neg (by simp [hb])]
  · rename_i h'
    exact absurd (h.symm.trans h') (by simp)

theorem tokenEnd_stop (h : ∀ b, bytes[i]? = some b → endsToken b = true) : tokenEnd bytes i = i := by
  rw [tokenEnd]
  split
  · rename_i b' h'
    rw [if_pos (h b' h')]
  · rfl

variable {depth : ℕ}

theorem nestedEnd_quote (h : bytes[i]? = some (byte '"')) :
    nestedEnd bytes depth i = nestedEnd bytes depth (skipString bytes i) := by
  rw [nestedEnd]
  split
  · rename_i b' h'
    obtain rfl := Option.some.inj (h.symm.trans h')
    rw [if_pos rfl]
  · rename_i h'
    exact absurd (h.symm.trans h') (by simp)

theorem nestedEnd_open (h : bytes[i]? = some b) (hb : b = byte '{' ∨ b = byte '[') :
    nestedEnd bytes depth i = nestedEnd bytes (depth + 1) (i + 1) := by
  have hq : b ≠ byte '"' := by
    rcases hb with rfl | rfl
    · decide
    · decide
  rw [nestedEnd]
  split
  · rename_i b' h'
    obtain rfl := Option.some.inj (h.symm.trans h')
    rw [if_neg hq, if_pos hb]
  · rename_i h'
    exact absurd (h.symm.trans h') (by simp)

theorem nestedEnd_close (h : bytes[i]? = some b) (hb : b = byte '}' ∨ b = byte ']') :
    nestedEnd bytes (depth + 1) i = if depth = 0 then i + 1 else nestedEnd bytes depth (i + 1) := by
  have hq : b ≠ byte '"' ∧ ¬(b = byte '{' ∨ b = byte '[') := by
    rcases hb with rfl | rfl
    · decide
    · decide
  rw [nestedEnd]
  split
  · rename_i b' h'
    obtain rfl := Option.some.inj (h.symm.trans h')
    rw [if_neg hq.1, if_neg hq.2, if_pos hb, Nat.add_sub_cancel]
  · rename_i h'
    exact absurd (h.symm.trans h') (by simp)

/-- The bytes the scan of an array or an object looks for. -/
def marks (b : UInt8) : Bool :=
  b = byte '"' || b = byte '{' || b = byte '[' || b = byte '}' || b = byte ']'

theorem nestedEnd_pass (h : bytes[i]? = some b) (hb : marks b = false) :
    nestedEnd bytes depth i = nestedEnd bytes depth (i + 1) := by
  unfold marks at hb
  simp only [Bool.or_eq_false_iff, decide_eq_false_iff_not] at hb
  obtain ⟨⟨⟨⟨h₁, h₂⟩, h₃⟩, h₄⟩, h₅⟩ := hb
  rw [nestedEnd]
  split
  · rename_i b' h'
    obtain rfl := Option.some.inj (h.symm.trans h')
    rw [if_neg h₁, if_neg (by tauto), if_neg (by tauto)]
  · rename_i h'
    exact absurd (h.symm.trans h') (by simp)

end Steps

/-! ## White space and strings -/

theorem isSpace_byte {c : Char} (hc : c.toNat < 128) : isSpace (byte c) = isWs c := by
  unfold isSpace isWs
  simp only [byte_inj hc (by decide : ' '.toNat < 128), byte_inj hc (by decide : '\t'.toNat < 128),
    byte_inj hc (by decide : '\n'.toNat < 128), byte_inj hc (by decide : '\r'.toNat < 128)]

theorem byte_ne_of_wide {b : UInt8} (h : 128 ≤ b.toNat) {c : Char} (hc : c.toNat < 128) :
    b ≠ byte c := by
  rintro rfl
  rw [byte_toNat hc] at h
  omega

theorem isSpace_wide {b : UInt8} (h : 128 ≤ b.toNat) : isSpace b = false := by
  unfold isSpace
  simp only [Bool.or_eq_false_iff, decide_eq_false_iff_not]
  exact ⟨⟨⟨byte_ne_of_wide h (by decide), byte_ne_of_wide h (by decide)⟩,
    byte_ne_of_wide h (by decide)⟩, byte_ne_of_wide h (by decide)⟩

theorem ascii_of_isWs {c : Char} (h : isWs c = true) : c.toNat < 128 := by
  unfold isWs at h
  simp only [Bool.or_eq_true, decide_eq_true_eq] at h
  rcases h with ((rfl | rfl) | rfl) | rfl
  · decide
  · decide
  · decide
  · decide

/-- **`skip_whitespace` ends where the white space does.** -/
theorem skipWhitespace_at (h : Ws t r) (hr : ∀ c ∈ r.head?, isWs c = false) :
    ∀ {i : ℕ}, At text i t → At text (skipWhitespace (encode text) i) r := by
  induction h with
  | nil r =>
    intro i hat
    rw [skipWhitespace_stop]
    · exact hat
    intro b hb
    rcases r with - | ⟨c, r⟩
    · rw [hat.get_nil] at hb
      exact absurd hb (by simp)
    · by_cases hc : c.toNat < 128
      · rw [hat.get_ascii hc] at hb
        obtain rfl := Option.some.inj hb
        rw [isSpace_byte hc]
        exact hr c rfl
      · obtain ⟨b', hget, hwide⟩ := hat.get_wide (Nat.le_of_not_lt hc) (utf8Size_pos c)
        rw [Nat.add_zero, hb] at hget
        obtain rfl := Option.some.inj hget
        exact isSpace_wide hwide
  | @cons c t r hc _ ih =>
    intro i hat
    have hascii := ascii_of_isWs hc
    rw [skipWhitespace_space (hat.get_ascii hascii) (by rw [isSpace_byte hascii, hc])]
    exact ih hr (hat.next_ascii hascii)

/-- The bytes of a longer character are passed over in a string. -/
theorem stringEnd_wide {c : Char} (hat : At text i (c :: t)) (hc : 128 ≤ c.toNat) :
    ∀ k ≤ c.utf8Size, stringEnd (encode text) i = stringEnd (encode text) (i + k) := by
  intro k
  induction k with
  | zero => exact fun _ => rfl
  | succ k ih =>
    intro hk
    obtain ⟨b, hget, hwide⟩ := hat.get_wide hc (show k < c.utf8Size by omega)
    rw [ih (by omega), stringEnd_plain hget (byte_ne_of_wide hwide (by decide))
      (byte_ne_of_wide hwide (by decide)), Nat.add_assoc]

theorem stringEnd_char {c : Char} (hat : At text i (c :: t)) (hq : c ≠ '"') (hb : c ≠ '\\') :
    ∃ j, At text j t ∧ stringEnd (encode text) i = stringEnd (encode text) j := by
  by_cases hc : c.toNat < 128
  · refine ⟨i + 1, hat.next_ascii hc, ?_⟩
    refine stringEnd_plain (hat.get_ascii hc) ?_ ?_
    · rwa [Ne, byte_inj hc (by decide)]
    · rwa [Ne, byte_inj hc (by decide)]
  · exact ⟨i + c.utf8Size, hat.next, stringEnd_wide hat (Nat.le_of_not_lt hc) _ (Nat.le_refl _)⟩

theorem shortEscape_ascii {c : Char} {n : ℕ} (h : shortEscape c = some n) : c.toNat < 128 := by
  unfold shortEscape at h
  split_ifs at h with h₁ h₂ h₃ h₄ h₅ h₆ h₇ h₈
  · rw [h₁]; decide
  · rw [h₂]; decide
  · rw [h₃]; decide
  · rw [h₄]; decide
  · rw [h₅]; decide
  · rw [h₆]; decide
  · rw [h₇]; decide
  · rw [h₈]; decide

/-- **`skip_string` ends behind the closing quote.** -/
theorem stringEnd_at {u : List ℕ} (h : Body t u r) :
    ∀ {i : ℕ}, At text i t → At text (stringEnd (encode text) i) r := by
  induction h with
  | close r =>
    intro i hat
    rw [stringEnd_quote (hat.get_ascii (by decide))]
    exact hat.next_ascii (by decide)
  | plain hq hb _ _ ih =>
    intro i hat
    obtain ⟨j, hj, heq⟩ := stringEnd_char hat hq hb
    rw [heq]
    exact ih hj
  | short hc _ ih =>
    intro i hat
    rw [stringEnd_escape (hat.get_ascii (by decide))]
    exact ih ((hat.next_ascii (by decide)).next_ascii (shortEscape_ascii hc))
  | @hex a b c d n t r u hn _ ih =>
    intro i hat
    obtain ⟨⟨ka, ha⟩, ⟨kb, hb⟩, ⟨kc, hc⟩, ⟨kd, hd⟩⟩ := hexUnit_digits hn
    have hfirst : At text (i + 2) (a :: b :: c :: d :: t) :=
      (hat.next_ascii (by decide)).next_ascii (by decide)
    obtain ⟨j₁, h₁, heq₁⟩ := stringEnd_char hfirst (hexDigit_plain ha).1 (hexDigit_plain ha).2
    obtain ⟨j₂, h₂, heq₂⟩ := stringEnd_char h₁ (hexDigit_plain hb).1 (hexDigit_plain hb).2
    obtain ⟨j₃, h₃, heq₃⟩ := stringEnd_char h₂ (hexDigit_plain hc).1 (hexDigit_plain hc).2
    obtain ⟨j₄, h₄, heq₄⟩ := stringEnd_char h₃ (hexDigit_plain hd).1 (hexDigit_plain hd).2
    rw [stringEnd_escape (hat.get_ascii (by decide)), heq₁, heq₂, heq₃, heq₄]
    exact ih h₄

/-! ## Arrays and objects -/

/-- The characters the scan of an array or an object passes over. -/
def isPassed (c : Char) : Bool := c.toNat < 128 && !marks (byte c)

/-- **The scan passes over a stretch of text** at a depth. -/
def Passes (text : List Char) (depth : ℕ) (t r : List Char) : Prop :=
  ∀ i, At text i t → ∃ j, At text j r ∧
    nestedEnd (encode text) depth i = nestedEnd (encode text) depth j

/-- **The scan leaves a depth** behind a stretch of text, and ends there if
it was the outermost. -/
def Closes (text : List Char) (depth : ℕ) (t r : List Char) : Prop :=
  ∀ i, At text i t → ∃ j, At text j r ∧ nestedEnd (encode text) (depth + 1) i =
    if depth = 0 then j else nestedEnd (encode text) depth j

section Nested

variable {depth : ℕ} {s : List Char} {c : Char}

theorem Passes.trans (h : Passes text depth t s) (h' : Passes text depth s r) :
    Passes text depth t r := by
  intro i hat
  obtain ⟨j, hj, heq⟩ := h i hat
  obtain ⟨k, hk, heq'⟩ := h' j hj
  exact ⟨k, hk, heq.trans heq'⟩

theorem Passes.closes (h : Passes text (depth + 1) t s) (h' : Closes text depth s r) :
    Closes text depth t r := by
  intro i hat
  obtain ⟨j, hj, heq⟩ := h i hat
  obtain ⟨k, hk, heq'⟩ := h' j hj
  exact ⟨k, hk, heq.trans heq'⟩

theorem passes_char (hc : isPassed c = true) : Passes text depth (c :: r) r := by
  unfold isPassed at hc
  simp only [Bool.and_eq_true, decide_eq_true_eq, Bool.not_eq_true'] at hc
  intro i hat
  exact ⟨i + 1, hat.next_ascii hc.1, nestedEnd_pass (hat.get_ascii hc.1) hc.2⟩

theorem passes_chars {x : List Char} (hx : ∀ c ∈ x, isPassed c = true) :
    Passes text depth (x ++ r) r := by
  induction x with
  | nil => exact fun i hat => ⟨i, hat, rfl⟩
  | cons c x ih =>
    obtain ⟨hc, hrest⟩ := List.forall_mem_cons.1 hx
    exact (passes_char hc).trans (ih hrest)

theorem passes_word {x : List Char} (hx : x.all isPassed = true) : Passes text depth (x ++ r) r :=
  passes_chars (List.all_eq_true.1 hx)

theorem isPassed_of_isWs (h : isWs c = true) : isPassed c = true := by
  unfold isWs at h
  simp only [Bool.or_eq_true, decide_eq_true_eq] at h
  rcases h with ((rfl | rfl) | rfl) | rfl
  · decide
  · decide
  · decide
  · decide

theorem passes_ws (h : Ws t r) : Passes text depth t r := by
  obtain ⟨x, rfl, hx, -⟩ := h.split
  exact passes_chars fun c hc => isPassed_of_isWs (hx c hc)

theorem passes_ws_char (h : Ws t (c :: r)) (hc : isPassed c = true) : Passes text depth t r :=
  (passes_ws h).trans (passes_char hc)

theorem ascii_of_isNumberChar (h : isNumberChar c = true) : c.toNat < 128 := by
  unfold isNumberChar at h
  simp only [Bool.or_eq_true, decide_eq_true_eq] at h
  rcases h with ((((hd | rfl) | rfl) | rfl) | rfl) | rfl
  · have hle : c.toNat ≤ 57 := (Char.isDigit_iff_toNat.1 hd).2
    omega
  · decide
  · decide
  · decide
  · decide
  · decide

theorem marks_byte (hc : c.toNat < 128) : marks (byte c) =
    (c = '"' || c = '\x7b' || c = '[' || c = '\x7d' || c = ']') := by
  unfold marks
  simp only [byte_inj hc (by decide : '"'.toNat < 128), byte_inj hc (by decide : '{'.toNat < 128),
    byte_inj hc (by decide : '['.toNat < 128), byte_inj hc (by decide : '}'.toNat < 128),
    byte_inj hc (by decide : ']'.toNat < 128)]

theorem isPassed_of_isNumberChar (h : isNumberChar c = true) : isPassed c = true := by
  have hc := ascii_of_isNumberChar h
  have hne : ∀ d : Char, isNumberChar d = false → c ≠ d := by
    rintro d hd rfl
    exact Bool.noConfusion (h.symm.trans hd)
  unfold isPassed
  rw [marks_byte hc]
  simp only [hc, hne _ (by decide : isNumberChar '"' = false),
    hne _ (by decide : isNumberChar '{' = false), hne _ (by decide : isNumberChar '[' = false),
    hne _ (by decide : isNumberChar '}' = false), hne _ (by decide : isNumberChar ']' = false)]
  decide

/-- A string is passed over, whatever stands inside. -/
theorem passes_string {u : List ℕ} (h : Body t u r) : Passes text depth ('"' :: t) r := by
  intro i hat
  refine ⟨skipString (encode text) i, ?_, nestedEnd_quote (hat.get_ascii (by decide))⟩
  exact stringEnd_at h (hat.next_ascii (by decide))

/-- The key of a member is passed over, up to its value. -/
theorem passes_key {t₁ t₂ t₃ : List Char} {u : List ℕ} (hw : Ws t ('"' :: t₁)) (hb : Body t₁ u t₂)
    (hc : Ws t₂ (':' :: t₃)) (hv : Ws t₃ r) : Passes text depth t r := by
  have hkey : Passes text depth t t₂ := (passes_ws hw).trans (passes_string hb)
  have hcolon : Passes text depth t₂ t₃ := passes_ws_char hc (by decide)
  exact (hkey.trans hcolon).trans (passes_ws hv)

theorem closes_bracket (hc : c = '}' ∨ c = ']') : Closes text depth (c :: r) r := by
  have hascii : c.toNat < 128 := by
    rcases hc with rfl | rfl
    · decide
    · decide
  intro i hat
  refine ⟨i + 1, hat.next_ascii hascii, nestedEnd_close (hat.get_ascii hascii) ?_⟩
  exact hc.imp (congrArg byte) (congrArg byte)

theorem closes_ws_bracket (hw : Ws t (c :: r)) (hc : c = '}' ∨ c = ']') : Closes text depth t r :=
  (passes_ws hw).closes (closes_bracket hc)

/-- The scan enters an array or an object. -/
theorem nestedEnd_enter (hc : c = '{' ∨ c = '[') (h : At text i (c :: t)) :
    At text (i + 1) t ∧
      nestedEnd (encode text) depth i = nestedEnd (encode text) (depth + 1) (i + 1) := by
  have hascii : c.toNat < 128 := by
    rcases hc with rfl | rfl
    · decide
    · decide
  exact ⟨h.next_ascii hascii,
    nestedEnd_open (h.get_ascii hascii) (hc.imp (congrArg byte) (congrArg byte))⟩

/-- An array or an object inside another is passed over. -/
theorem Closes.passes (h : Closes text (depth + 1) t r) (hc : c = '{' ∨ c = '[') :
    Passes text (depth + 1) (c :: t) r := by
  intro i hat
  obtain ⟨hin, heq⟩ := nestedEnd_enter hc hat
  obtain ⟨j, hj, heq'⟩ := h (i + 1) hin
  exact ⟨j, hj, heq.trans (heq'.trans (if_neg (Nat.succ_ne_zero depth)))⟩

end Nested

/-- What the scan does with a piece, at every depth. -/
def Scanned (text t : List Char) : Piece → List Char → Prop
  | .value _, r => ∀ depth, Passes text (depth + 1) t r
  | _, r => ∀ depth, Closes text depth t r

/-- **The scan follows the grammar**: it passes over values and closes with
the bracket that ends the items or the members. -/
theorem derives_scanned {p : Piece} (h : Derives t p r) : Scanned text t p r := by
  induction h with
  | null r => exact fun depth => passes_word (x := ['n', 'u', 'l', 'l']) rfl
  | true r => exact fun depth => passes_word (x := ['t', 'r', 'u', 'e']) rfl
  | false r => exact fun depth => passes_word (x := ['f', 'a', 'l', 's', 'e']) rfl
  | num n r =>
    exact fun depth => passes_chars fun c hc => isPassed_of_isNumberChar (text_isNumberChar n c hc)
  | str hb => exact fun depth => passes_string hb
  | emptyArr hw => exact fun depth => (closes_ws_bracket hw (.inr rfl)).passes (.inr rfl)
  | arr _ ih => exact fun depth => (ih (depth + 1)).passes (.inr rfl)
  | emptyObj hw => exact fun depth => (closes_ws_bracket hw (.inl rfl)).passes (.inl rfl)
  | obj _ ih => exact fun depth => (ih (depth + 1)).passes (.inl rfl)
  | lastItem hw _ hc ih =>
    intro depth
    exact ((passes_ws hw).trans (ih depth)).closes (closes_ws_bracket hc (.inr rfl))
  | item hw _ hc _ ih ih' =>
    intro depth
    have hvalue := (passes_ws hw).trans (ih depth)
    exact (hvalue.trans (passes_ws_char hc (by decide))).closes (ih' depth)
  | lastMember hw hb hc hv _ he ih =>
    intro depth
    have hvalue := (passes_key hw hb hc hv).trans (ih depth)
    exact hvalue.closes (closes_ws_bracket he (.inl rfl))
  | member hw hb hc hv _ he _ ih ih' =>
    intro depth
    have hvalue := (passes_key hw hb hc hv).trans (ih depth)
    exact (hvalue.trans (passes_ws_char he (by decide))).closes (ih' depth)

/-! ## Values -/

/-- What follows the value of a member: the end of the text, white space, a
comma or the closing bracket. -/
def EndsValue (r : List Char) : Prop := ∀ c ∈ r.head?, isWs c = true ∨ c = ',' ∨ c = '}'

theorem endsValue_ws {c : Char} (h : Ws t (c :: r)) (hc : c = ',' ∨ c = '}') : EndsValue t := by
  cases h with
  | nil =>
    intro d hd
    obtain rfl := Option.some.inj hd
    exact .inr hc
  | cons hw _ =>
    intro d hd
    obtain rfl := Option.some.inj hd
    exact .inl hw

theorem endsToken_of_ends {c : Char} (h : isWs c = true ∨ c = ',' ∨ c = '}') :
    c.toNat < 128 ∧ endsToken (byte c) = true := by
  rcases h with hw | rfl | rfl
  · have hascii := ascii_of_isWs hw
    refine ⟨hascii, ?_⟩
    unfold endsToken
    rw [isSpace_byte hascii, hw, Bool.or_true]
  · decide
  · decide

/-- The characters of a bare token. -/
def isBare (c : Char) : Bool := c.toNat < 128 && !endsToken (byte c)

theorem isBare_of_isNumberChar {c : Char} (h : isNumberChar c = true) : isBare c = true := by
  have hc := ascii_of_isNumberChar h
  have hne : ∀ d : Char, d.toNat < 128 → isNumberChar d = false → byte c ≠ byte d := by
    intro d hd hnum heq
    obtain rfl := (byte_inj hc hd).1 heq
    exact Bool.noConfusion (h.symm.trans hnum)
  have hspace : isSpace (byte c) = false := by
    rw [isSpace_byte hc]
    by_contra hw
    have hnot := isNumberChar_of_isWs (Bool.eq_true_of_not_eq_false hw)
    exact Bool.noConfusion (h.symm.trans hnot)
  unfold isBare endsToken
  simp only [hc, hspace, hne ',' (by decide) (by decide), hne '}' (by decide) (by decide),
    hne ']' (by decide) (by decide)]
  decide

/-- A bare token ends before what follows it. -/
theorem tokenEnd_at {x : List Char} (hx : ∀ c ∈ x, isBare c = true) (hr : EndsValue r) :
    ∀ {i : ℕ}, At text i (x ++ r) → At text (tokenEnd (encode text) i) r := by
  induction x with
  | nil =>
    intro i hat
    rw [List.nil_append] at hat
    rw [tokenEnd_stop]
    · exact hat
    intro b hb
    rcases r with - | ⟨c, r⟩
    · rw [hat.get_nil] at hb
      exact absurd hb (by simp)
    · obtain ⟨hc, hends⟩ := endsToken_of_ends (hr c rfl)
      rw [hat.get_ascii hc] at hb
      rwa [← Option.some.inj hb]
  | cons c x ih =>
    intro i hat
    obtain ⟨hc, hrest⟩ := List.forall_mem_cons.1 hx
    unfold isBare at hc
    simp only [Bool.and_eq_true, decide_eq_true_eq, Bool.not_eq_true'] at hc
    rw [tokenEnd_step (hat.get_ascii hc.1) hc.2]
    exact ih hrest (hat.next_ascii hc.1)

/-- Which of its scans `skip_value` takes, by the first character. -/
theorem skipValue_bare {c : Char} (hat : At text i (c :: t)) (hc : isBare c = true)
    (hm : marks (byte c) = false) : skipValue (encode text) i = tokenEnd (encode text) i := by
  have hascii : c.toNat < 128 := by
    unfold isBare at hc
    simp only [Bool.and_eq_true, decide_eq_true_eq] at hc
    exact hc.1
  unfold marks at hm
  simp only [Bool.or_eq_false_iff, decide_eq_false_iff_not] at hm
  obtain ⟨⟨⟨⟨h₁, h₂⟩, h₃⟩, -⟩, -⟩ := hm
  unfold skipValue
  rw [hat.get_ascii hascii, if_neg (by simpa using h₁), if_neg (by simpa using ⟨h₂, h₃⟩)]

theorem skipValue_string (hat : At text i ('"' :: t)) :
    skipValue (encode text) i = stringEnd (encode text) (i + 1) := by
  unfold skipValue
  rw [if_pos (hat.get_ascii (by decide))]
  rfl

theorem skipValue_nested {c : Char} (hat : At text i (c :: t)) (hc : c = '{' ∨ c = '[') :
    skipValue (encode text) i = nestedEnd (encode text) 0 i := by
  unfold skipValue
  rcases hc with rfl | rfl
  · rw [hat.get_ascii (by decide), if_neg (by decide), if_pos (by decide)]
  · rw [hat.get_ascii (by decide), if_neg (by decide), if_pos (by decide)]

/-- An array or an object ends where the scan closes its bracket. -/
theorem Closes.skipValue_at {c : Char} (h : Closes text 0 t r) (hc : c = '{' ∨ c = '[')
    (hat : At text i (c :: t)) : At text (skipValue (encode text) i) r := by
  obtain ⟨hin, heq⟩ := nestedEnd_enter hc hat
  obtain ⟨j, hj, hend⟩ := h (i + 1) hin
  rw [skipValue_nested hat hc, heq, hend, if_pos rfl]
  exact hj

/-- A token without brackets and quotes is read as a bare one. -/
theorem skipValue_token {c : Char} {x : List Char} (hx : ∀ d ∈ c :: x, isBare d = true)
    (hm : marks (byte c) = false) (hr : EndsValue r) (hat : At text i (c :: x ++ r)) :
    At text (skipValue (encode text) i) r := by
  have hc : isBare c = true := hx c List.mem_cons_self
  have hat' : At text i (c :: (x ++ r)) := hat
  rw [skipValue_bare hat' hc hm]
  exact tokenEnd_at hx hr hat

/-- **`skip_value` ends where the value does.** -/
theorem skipValue_at {v : Value} (h : Derives t (.value v) r) (hr : EndsValue r)
    (hat : At text i t) : At text (skipValue (encode text) i) r := by
  cases h with
  | null r =>
    exact skipValue_token (c := 'n') (x := ['u', 'l', 'l']) (List.all_eq_true.1 rfl) rfl hr hat
  | true r =>
    exact skipValue_token (c := 't') (x := ['r', 'u', 'e']) (List.all_eq_true.1 rfl) rfl hr hat
  | false r =>
    exact skipValue_token (c := 'f') (x := ['a', 'l', 's', 'e']) (List.all_eq_true.1 rfl) rfl hr hat
  | num n r =>
    have hnum := text_isNumberChar n
    obtain ⟨c, x, htext, -⟩ := n.text_cons
    rw [htext] at hat hnum
    have hc := isPassed_of_isNumberChar (hnum c List.mem_cons_self)
    unfold isPassed at hc
    simp only [Bool.and_eq_true, Bool.not_eq_true'] at hc
    exact skipValue_token (fun d hd => isBare_of_isNumberChar (hnum d hd)) hc.2 hr hat
  | str hb =>
    rw [skipValue_string hat]
    exact stringEnd_at hb (hat.next_ascii (by decide))
  | emptyArr hw => exact (closes_ws_bracket hw (.inr rfl)).skipValue_at (.inr rfl) hat
  | arr hi => exact (derives_scanned hi 0).skipValue_at (.inr rfl) hat
  | emptyObj hw => exact (closes_ws_bracket hw (.inl rfl)).skipValue_at (.inl rfl) hat
  | obj hm => exact (derives_scanned hm 0).skipValue_at (.inl rfl) hat

end BundleProfile

end Protocol

end Tensorplate
