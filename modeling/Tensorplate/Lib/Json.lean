import Tensorplate.Lib.Decimal

/-!
# JSON texts

The grammar of RFC 8259 over the characters that remain: `Derives t p r`
says that `t` starts with a text of `p` and that `r` is left of it, so a
sequence of productions is a chain of remainders. A value keeps what a
parser sees: number lexemes as they are written, the members of an object
in order and with their repetitions, and strings as code points, where only
an escape can bring in a surrogate.
-/

namespace Tensorplate

namespace Lib

namespace Json

/-! ## Values -/

/-- A JSON value as it is written. -/
inductive Value
  | null
  | bool (b : Bool)
  | num (lexeme : List Char)
  | str (points : List ℕ)
  | arr (items : List Value)
  | obj (members : List (List ℕ × Value))

/-- Induction over values, with the hypothesis for every item and member. -/
theorem Value.ind {motive : Value → Prop} (null : motive .null) (bool : ∀ b, motive (.bool b))
    (num : ∀ l, motive (.num l)) (str : ∀ s, motive (.str s))
    (arr : ∀ vs, (∀ v ∈ vs, motive v) → motive (.arr vs))
    (obj : ∀ ms, (∀ m ∈ ms, motive m.2) → motive (.obj ms)) (v : Value) : motive v := by
  refine @Value.rec motive (fun vs => ∀ v ∈ vs, motive v) (fun ms => ∀ m ∈ ms, motive m.2)
    (fun m => motive m.2) null bool num str arr obj ?_ ?_ ?_ ?_ ?_ v
  · exact nofun
  · exact fun v vs hv hvs => List.forall_mem_cons.2 ⟨hv, hvs⟩
  · exact nofun
  · exact fun m ms hm hms => List.forall_mem_cons.2 ⟨hm, hms⟩
  · exact fun _ _ h => h

mutual

/-- How deep arrays and objects nest. -/
def Value.depth : Value → ℕ
  | .arr vs => itemsDepth vs + 1
  | .obj ms => membersDepth ms + 1
  | _ => 0

def itemsDepth : List Value → ℕ
  | [] => 0
  | v :: vs => max v.depth (itemsDepth vs)

def membersDepth : List (List ℕ × Value) → ℕ
  | [] => 0
  | m :: ms => max (memberDepth m) (membersDepth ms)

def memberDepth : List ℕ × Value → ℕ
  | (_, v) => v.depth

end

theorem itemsDepth_le {vs : List Value} {n : ℕ} : itemsDepth vs ≤ n ↔ ∀ v ∈ vs, v.depth ≤ n := by
  induction vs with
  | nil => simp [itemsDepth]
  | cons v vs ih => rw [itemsDepth, max_le_iff, ih, List.forall_mem_cons]

theorem membersDepth_le {ms : List (List ℕ × Value)} {n : ℕ} :
    membersDepth ms ≤ n ↔ ∀ m ∈ ms, m.2.depth ≤ n := by
  induction ms with
  | nil => simp [membersDepth]
  | cons m ms ih => rw [membersDepth, memberDepth, max_le_iff, ih, List.forall_mem_cons]

/-! ## Numbers -/

/-- One digit or more. -/
def DigitRun (ds : List Char) : Prop := ds ≠ [] ∧ ∀ c ∈ ds, c.isDigit = true

/-- A number lexeme by its parts: `[-] int [. frac] [e exp]`. -/
structure Number where
  neg : Bool := false
  int : List Char
  frac : Option (List Char) := none
  /-- The letter, the sign and the digits of the exponent. -/
  exp : Option (Char × Option Char × List Char) := none
  int_run : DigitRun int
  /-- No leading zero. -/
  int_lead : 1 < int.length → int.head? ≠ some '0'
  frac_run : ∀ f ∈ frac, DigitRun f
  exp_letter : ∀ e ∈ exp, e.1 = 'e' ∨ e.1 = 'E'
  exp_sign : ∀ e ∈ exp, ∀ s ∈ e.2.1, s = '+' ∨ s = '-'
  exp_run : ∀ e ∈ exp, DigitRun e.2.2

namespace Number

def signText (n : Number) : List Char := if n.neg then ['-'] else []

def fracText (n : Number) : List Char :=
  match n.frac with
  | none => []
  | some f => '.' :: f

def expText (n : Number) : List Char :=
  match n.exp with
  | none => []
  | some (letter, sign, digits) => letter :: (sign.toList ++ digits)

def text (n : Number) : List Char := n.signText ++ (n.int ++ (n.fracText ++ n.expText))

/-- The digits of the mantissa. -/
def digits (n : Number) : List Char := n.int ++ n.frac.getD []

def exponent (n : Number) : ℤ :=
  match n.exp with
  | none => 0
  | some (_, sign, digits) =>
    if sign = some '-' then -(decimal digits : ℤ) else decimal digits

/-- The exact value: the digits of the mantissa, scaled by the exponent and
the digits behind the point. -/
def value (n : Number) : ℚ :=
  (if n.neg then -1 else 1) * (decimal n.digits : ℚ) *
    (10 : ℚ) ^ (n.exponent - (n.frac.getD []).length)

/-- The number a plain spelling writes. -/
def plain (neg : Bool) (k : ℕ) : Number where
  neg := neg
  int := Nat.toDigits 10 k
  int_run := ⟨Nat.toDigits_ne_nil, fun _ hc => isDigit_of_mem_toDigits hc⟩
  int_lead := toDigits_lead k
  frac_run := fun _ h => by cases h
  exp_letter := fun _ h => by cases h
  exp_sign := fun _ h => by cases h
  exp_run := fun _ h => by cases h

theorem plain_text (neg : Bool) (k : ℕ) :
    (plain neg k).text = (if neg then ['-'] else []) ++ Nat.toDigits 10 k := by
  show (if neg then ['-'] else []) ++ (Nat.toDigits 10 k ++ ([] ++ [])) = _
  simp

/-- A number starts with its sign or with a digit. -/
theorem text_cons (n : Number) : ∃ c cs, n.text = c :: cs ∧ (c = '-' ∨ c.isDigit = true) := by
  obtain ⟨d, ds, hint⟩ := List.exists_cons_of_ne_nil n.int_run.1
  have hd : d.isDigit = true := n.int_run.2 d (by rw [hint]; exact List.mem_cons_self ..)
  unfold text signText
  cases n.neg with
  | true => exact ⟨'-', _, rfl, .inl rfl⟩
  | false =>
    rw [hint]
    exact ⟨d, _, rfl, .inr hd⟩

section Integers

variable {n : Number} (hf : n.frac = none) (he : n.exp = none)
include hf he

/-- Without fraction and exponent only the sign stands before the digits. -/
theorem text_int : n.text = (if n.neg then ['-'] else []) ++ n.int := by
  unfold text signText fracText expText
  rw [hf, he]
  simp

theorem value_int : n.value = (if n.neg then -(decimal n.int : ℤ) else (decimal n.int : ℤ) : ℤ) := by
  unfold value digits exponent
  rw [hf, he]
  by_cases hn : n.neg <;> simp [hn]

end Integers

end Number

def IsNumber (l : List Char) : Prop := ∃ n : Number, n.text = l

/-- The characters number lexemes are made of. -/
def isNumberChar (c : Char) : Bool :=
  c.isDigit || c = '-' || c = '+' || c = '.' || c = 'e' || c = 'E'

theorem isNumberChar_of_digit {c : Char} (h : c.isDigit = true) : isNumberChar c = true := by
  unfold isNumberChar
  rw [h]
  rfl

/-- A number is made of these characters. -/
theorem text_isNumberChar (n : Number) : ∀ c ∈ n.text, isNumberChar c = true := by
  intro c hc
  unfold Number.text Number.signText at hc
  rcases List.mem_append.1 hc with hc | hc
  · split_ifs at hc
    · rw [List.mem_singleton.1 hc]
      rfl
    · cases hc
  · rcases List.mem_append.1 hc with hc | hc
    · exact isNumberChar_of_digit (n.int_run.2 c hc)
    · rcases List.mem_append.1 hc with hc | hc
      · unfold Number.fracText at hc
        cases hf : n.frac with
        | none =>
          rw [hf] at hc
          cases hc
        | some f =>
          rw [hf] at hc
          rcases List.mem_cons.1 hc with rfl | hc
          · rfl
          · exact isNumberChar_of_digit ((n.frac_run f hf).2 c hc)
      · unfold Number.expText at hc
        cases he : n.exp with
        | none =>
          rw [he] at hc
          cases hc
        | some e =>
          obtain ⟨letter, sign, ds⟩ := e
          rw [he] at hc
          rcases List.mem_cons.1 hc with rfl | hc
          · rcases n.exp_letter _ he with h | h
            · rw [show c = 'e' from h]
              rfl
            · rw [show c = 'E' from h]
              rfl
          · rcases List.mem_append.1 hc with hc | hc
            · rcases n.exp_sign _ he c (by simpa using hc) with rfl | rfl
              · rfl
              · rfl
            · exact isNumberChar_of_digit ((n.exp_run _ he).2 c hc)

/-! ## Strings -/

/-- The code unit an escape of one letter stands for. -/
def shortEscape (c : Char) : Option ℕ :=
  if c = '"' then some 0x22
  else if c = '\\' then some 0x5c
  else if c = '/' then some 0x2f
  else if c = 'b' then some 0x08
  else if c = 'f' then some 0x0c
  else if c = 'n' then some 0x0a
  else if c = 'r' then some 0x0d
  else if c = 't' then some 0x09
  else none

def hexDigit (c : Char) : Option ℕ :=
  if '0' ≤ c ∧ c ≤ '9' then some (c.toNat - 48)
  else if 'a' ≤ c ∧ c ≤ 'f' then some (c.toNat - 87)
  else if 'A' ≤ c ∧ c ≤ 'F' then some (c.toNat - 55)
  else none

/-- The code unit of a `\u` escape. -/
def hexUnit (a b c d : Char) : Option ℕ := do
  let a ← hexDigit a
  let b ← hexDigit b
  let c ← hexDigit c
  let d ← hexDigit d
  pure (((a * 16 + b) * 16 + c) * 16 + d)

def isHighSurrogate (n : ℕ) : Bool := 0xd800 ≤ n && n < 0xdc00

def isLowSurrogate (n : ℕ) : Bool := 0xdc00 ≤ n && n < 0xe000

def isSurrogate (n : ℕ) : Bool := 0xd800 ≤ n && n < 0xe000

/-- A high surrogate and the low one after it are one code point. -/
def joinSurrogates : List ℕ → List ℕ
  | [] => []
  | [u] => [u]
  | u :: w :: us =>
    if isHighSurrogate u && isLowSurrogate w then
      (0x10000 + (u - 0xd800) * 0x400 + (w - 0xdc00)) :: joinSurrogates us
    else u :: joinSurrogates (w :: us)

/-- The body of a string with its closing quote, and the code units it
stands for. -/
inductive Body : List Char → List ℕ → List Char → Prop
  | close (r : List Char) : Body ('"' :: r) [] r
  | plain {c : Char} {t r : List Char} {u : List ℕ} : c ≠ '"' → c ≠ '\\' → 0x20 ≤ c.toNat →
    Body t u r → Body (c :: t) (c.toNat :: u) r
  | short {c : Char} {n : ℕ} {t r : List Char} {u : List ℕ} : shortEscape c = some n →
    Body t u r → Body ('\\' :: c :: t) (n :: u) r
  | hex {a b c d : Char} {n : ℕ} {t r : List Char} {u : List ℕ} : hexUnit a b c d = some n →
    Body t u r → Body ('\\' :: 'u' :: a :: b :: c :: d :: t) (n :: u) r

/-! ## Values in a text -/

def isWs (c : Char) : Bool := c = ' ' || c = '\t' || c = '\n' || c = '\r'

/-- White space, and what is left of it. -/
inductive Ws : List Char → List Char → Prop
  | nil (r : List Char) : Ws r r
  | cons {c : Char} {t r : List Char} : isWs c = true → Ws t r → Ws (c :: t) r

/-- What a stretch of text can stand for. -/
inductive Piece
  | value (v : Value)
  | items (vs : List Value)
  | members (ms : List (List ℕ × Value))

/-- **The grammar.** `items` and `members` are what follows an opening
bracket that does not close at once, the closing bracket included. -/
inductive Derives : List Char → Piece → List Char → Prop
  | null (r : List Char) : Derives ('n' :: 'u' :: 'l' :: 'l' :: r) (.value .null) r
  | true (r : List Char) : Derives ('t' :: 'r' :: 'u' :: 'e' :: r) (.value (.bool true)) r
  | false (r : List Char) : Derives ('f' :: 'a' :: 'l' :: 's' :: 'e' :: r) (.value (.bool false)) r
  | num (n : Number) (r : List Char) : Derives (n.text ++ r) (.value (.num n.text)) r
  | str {t r : List Char} {u : List ℕ} : Body t u r →
    Derives ('"' :: t) (.value (.str (joinSurrogates u))) r
  | emptyArr {t r : List Char} : Ws t (']' :: r) → Derives ('[' :: t) (.value (.arr [])) r
  | arr {t r : List Char} {vs : List Value} : Derives t (.items vs) r →
    Derives ('[' :: t) (.value (.arr vs)) r
  | emptyObj {t r : List Char} : Ws t ('}' :: r) → Derives ('{' :: t) (.value (.obj [])) r
  | obj {t r : List Char} {ms : List (List ℕ × Value)} : Derives t (.members ms) r →
    Derives ('{' :: t) (.value (.obj ms)) r
  | lastItem {t t₁ t₂ r : List Char} {v : Value} : Ws t t₁ → Derives t₁ (.value v) t₂ →
    Ws t₂ (']' :: r) → Derives t (.items [v]) r
  | item {t t₁ t₂ t₃ r : List Char} {v : Value} {vs : List Value} : Ws t t₁ →
    Derives t₁ (.value v) t₂ → Ws t₂ (',' :: t₃) → Derives t₃ (.items vs) r →
    Derives t (.items (v :: vs)) r
  | lastMember {t t₁ t₂ t₃ t₄ t₅ r : List Char} {k : List ℕ} {v : Value} : Ws t ('"' :: t₁) →
    Body t₁ k t₂ → Ws t₂ (':' :: t₃) → Ws t₃ t₄ → Derives t₄ (.value v) t₅ → Ws t₅ ('}' :: r) →
    Derives t (.members [(joinSurrogates k, v)]) r
  | member {t t₁ t₂ t₃ t₄ t₅ t₆ r : List Char} {k : List ℕ} {v : Value}
    {ms : List (List ℕ × Value)} : Ws t ('"' :: t₁) → Body t₁ k t₂ → Ws t₂ (':' :: t₃) →
    Ws t₃ t₄ → Derives t₄ (.value v) t₅ → Ws t₅ (',' :: t₆) → Derives t₆ (.members ms) r →
    Derives t (.members ((joinSurrogates k, v) :: ms)) r

/-- **A JSON text** and its value. -/
def Text (t : List Char) (v : Value) : Prop :=
  ∃ t₁ t₂, Ws t t₁ ∧ Derives t₁ (.value v) t₂ ∧ Ws t₂ []

/-! ## What follows a value -/

/-- What is left does not continue a number. -/
def Follow (r : List Char) : Prop := ∀ c ∈ r.head?, isNumberChar c = false

/-- What has to follow a piece: a value may end in a number. -/
def FollowsPiece : Piece → List Char → Prop
  | .value _, r => Follow r
  | _, _ => True

theorem follow_nil : Follow [] := nofun

theorem isNumberChar_of_isWs {c : Char} (h : isWs c = true) : isNumberChar c = false := by
  unfold isWs at h
  simp only [Bool.or_eq_true, decide_eq_true_eq] at h
  rcases h with ((rfl | rfl) | rfl) | rfl <;> decide

/-- White space and then a character outside numbers, or the end. -/
theorem Ws.follow {t r : List Char} (h : Ws t r) (hr : Follow r) : Follow t := by
  cases h with
  | nil => exact hr
  | cons hc _ =>
    intro d hd
    cases hd
    exact isNumberChar_of_isWs hc

theorem Ws.length_le {t r : List Char} (h : Ws t r) : r.length ≤ t.length := by
  induction h with
  | nil => exact Nat.le_refl _
  | cons _ _ ih => exact Nat.le_succ_of_le ih

theorem Body.length_le {t r : List Char} {u : List ℕ} (h : Body t u r) :
    r.length ≤ t.length := by
  induction h with
  | close r => exact Nat.le_succ _
  | plain _ _ _ _ ih => exact Nat.le_succ_of_le ih
  | short _ _ ih => exact Nat.le_succ_of_le (Nat.le_succ_of_le ih)
  | hex _ _ ih =>
    simp only [List.length_cons]
    omega

/-- What is left is no longer than the text. -/
theorem Derives.length_le {t r : List Char} {p : Piece} (h : Derives t p r) :
    r.length ≤ t.length := by
  induction h with
  | null r | true r | false r =>
    simp only [List.length_cons]
    omega
  | num n r =>
    rw [List.length_append]
    exact Nat.le_add_left _ _
  | str hb => exact Nat.le_succ_of_le hb.length_le
  | emptyArr hw | emptyObj hw =>
    have := hw.length_le
    simp only [List.length_cons] at this ⊢
    omega
  | arr _ ih | obj _ ih => exact Nat.le_succ_of_le ih
  | lastItem h1 _ h3 ih =>
    have := h1.length_le
    have := h3.length_le
    simp only [List.length_cons] at this
    omega
  | item h1 _ h3 _ ih ih' =>
    have := h1.length_le
    have := h3.length_le
    simp only [List.length_cons] at this
    omega
  | lastMember h1 h2 h3 h4 _ h6 ih =>
    have := h1.length_le
    have := h2.length_le
    have := h3.length_le
    have := h4.length_le
    have := h6.length_le
    simp only [List.length_cons] at *
    omega
  | member h1 h2 h3 h4 _ h6 _ ih ih' =>
    have := h1.length_le
    have := h2.length_le
    have := h3.length_le
    have := h4.length_le
    have := h6.length_le
    simp only [List.length_cons] at *
    omega

theorem follow_cons {c : Char} (h : isNumberChar c = false) (r : List Char) : Follow (c :: r) := by
  intro d hd
  cases hd
  exact h

theorem takeWhile_append_follow {l r : List Char} (hl : ∀ c ∈ l, isNumberChar c = true)
    (hr : Follow r) : (l ++ r).takeWhile isNumberChar = l ∧ (l ++ r).dropWhile isNumberChar = r := by
  have hr' : r.takeWhile isNumberChar = [] ∧ r.dropWhile isNumberChar = r := by
    cases r with
    | nil => exact ⟨rfl, rfl⟩
    | cons c cs =>
      have hc := hr c rfl
      exact ⟨List.takeWhile_cons_of_neg (by simp [hc]), List.dropWhile_cons_of_neg (by simp [hc])⟩
  rw [List.takeWhile_append_of_pos hl, List.dropWhile_append_of_pos hl, hr'.1, hr'.2]
  exact ⟨List.append_nil l, rfl⟩

theorem follow_dropWhile (l : List Char) : Follow (l.dropWhile isNumberChar) := by
  intro c hc
  have := List.head?_dropWhile_not isNumberChar l
  rw [hc] at this
  simpa using this

/-! ## What is derived, apart from what is left -/

theorem hexDigit_plain {c : Char} {n : ℕ} (h : hexDigit c = some n) : c ≠ '"' ∧ c ≠ '\\' := by
  constructor
  · rintro rfl
    cases h
  · rintro rfl
    cases h

theorem hexUnit_digits {a b c d : Char} {n : ℕ} (h : hexUnit a b c d = some n) :
    (∃ k, hexDigit a = some k) ∧ (∃ k, hexDigit b = some k) ∧ (∃ k, hexDigit c = some k) ∧
      ∃ k, hexDigit d = some k := by
  unfold hexUnit at h
  simp only [Option.bind_eq_bind, Option.bind_eq_some_iff] at h
  obtain ⟨ka, ha, kb, hb, kc, hc, kd, hd, -⟩ := h
  exact ⟨⟨ka, ha⟩, ⟨kb, hb⟩, ⟨kc, hc⟩, ⟨kd, hd⟩⟩

theorem Ws.split {t r : List Char} (h : Ws t r) :
    ∃ x, t = x ++ r ∧ (∀ c ∈ x, isWs c = true) ∧ ∀ r', Ws (x ++ r') r' := by
  induction h with
  | nil r => exact ⟨[], rfl, nofun, fun r' => .nil r'⟩
  | @cons c t r hc _ ih =>
    obtain ⟨x, rfl, hx, hall⟩ := ih
    exact ⟨c :: x, rfl, List.forall_mem_cons.2 ⟨hc, hx⟩, fun r' => .cons hc (hall r')⟩

theorem Body.split {t r : List Char} {u : List ℕ} (h : Body t u r) :
    ∃ x, t = x ++ r ∧ ∀ r', Body (x ++ r') u r' := by
  induction h with
  | close r => exact ⟨['"'], rfl, fun r' => .close r'⟩
  | @plain c t r u hq hb hc _ ih =>
    obtain ⟨x, rfl, hall⟩ := ih
    exact ⟨c :: x, rfl, fun r' => .plain hq hb hc (hall r')⟩
  | @short c n t r u hc _ ih =>
    obtain ⟨x, rfl, hall⟩ := ih
    exact ⟨'\\' :: c :: x, rfl, fun r' => .short hc (hall r')⟩
  | @hex a b c d n t r u hn _ ih =>
    obtain ⟨x, rfl, hall⟩ := ih
    exact ⟨'\\' :: 'u' :: a :: b :: c :: d :: x, rfl, fun r' => .hex hn (hall r')⟩

/-- White space up to a character, apart from what is left behind that. -/
theorem Ws.split_cons {c : Char} {t r : List Char} (h : Ws t (c :: r)) :
    ∃ x, t = x ++ r ∧ ∀ r', Ws (x ++ r') (c :: r') := by
  obtain ⟨x, rfl, -, hall⟩ := h.split
  refine ⟨x ++ [c], by rw [List.append_assoc]; rfl, ?_⟩
  intro r'
  rw [List.append_assoc]
  exact hall (c :: r')

/-- **A piece of text stands for the same whatever is left behind it.** -/
theorem Derives.split {t r : List Char} {p : Piece} (h : Derives t p r) :
    ∃ x, t = x ++ r ∧ ∀ r', Derives (x ++ r') p r' := by
  induction h with
  | null r => exact ⟨['n', 'u', 'l', 'l'], rfl, fun r' => .null r'⟩
  | true r => exact ⟨['t', 'r', 'u', 'e'], rfl, fun r' => .true r'⟩
  | false r => exact ⟨['f', 'a', 'l', 's', 'e'], rfl, fun r' => .false r'⟩
  | num n r => exact ⟨n.text, rfl, fun r' => .num n r'⟩
  | str hb =>
    obtain ⟨x, rfl, hall⟩ := hb.split
    exact ⟨'"' :: x, rfl, fun r' => .str (hall r')⟩
  | emptyArr hw =>
    obtain ⟨x, rfl, hall⟩ := hw.split_cons
    exact ⟨'[' :: x, rfl, fun r' => .emptyArr (hall r')⟩
  | arr _ ih =>
    obtain ⟨x, rfl, hall⟩ := ih
    exact ⟨'[' :: x, rfl, fun r' => .arr (hall r')⟩
  | emptyObj hw =>
    obtain ⟨x, rfl, hall⟩ := hw.split_cons
    exact ⟨'\x7b' :: x, rfl, fun r' => .emptyObj (hall r')⟩
  | obj _ ih =>
    obtain ⟨x, rfl, hall⟩ := ih
    exact ⟨'\x7b' :: x, rfl, fun r' => .obj (hall r')⟩
  | lastItem hw _ hc ih =>
    obtain ⟨x₃, rfl, h₃⟩ := hc.split_cons
    obtain ⟨x₂, rfl, h₂⟩ := ih
    obtain ⟨x₁, rfl, -, h₁⟩ := hw.split
    refine ⟨x₁ ++ (x₂ ++ x₃), by simp only [List.append_assoc], ?_⟩
    intro r'
    simp only [List.append_assoc]
    exact .lastItem (h₁ _) (h₂ _) (h₃ r')
  | item hw _ hc _ ih ih' =>
    obtain ⟨x₄, rfl, h₄⟩ := ih'
    obtain ⟨x₃, rfl, h₃⟩ := hc.split_cons
    obtain ⟨x₂, rfl, h₂⟩ := ih
    obtain ⟨x₁, rfl, -, h₁⟩ := hw.split
    refine ⟨x₁ ++ (x₂ ++ (x₃ ++ x₄)), by simp only [List.append_assoc], ?_⟩
    intro r'
    simp only [List.append_assoc]
    exact .item (h₁ _) (h₂ _) (h₃ _) (h₄ r')
  | lastMember hw hb hc hv _ he ih =>
    obtain ⟨x₆, rfl, h₆⟩ := he.split_cons
    obtain ⟨x₅, rfl, h₅⟩ := ih
    obtain ⟨x₄, rfl, -, h₄⟩ := hv.split
    obtain ⟨x₃, rfl, h₃⟩ := hc.split_cons
    obtain ⟨x₂, rfl, h₂⟩ := hb.split
    obtain ⟨x₁, rfl, h₁⟩ := hw.split_cons
    refine ⟨x₁ ++ (x₂ ++ (x₃ ++ (x₄ ++ (x₅ ++ x₆)))), by simp only [List.append_assoc], ?_⟩
    intro r'
    simp only [List.append_assoc]
    exact .lastMember (h₁ _) (h₂ _) (h₃ _) (h₄ _) (h₅ _) (h₆ r')
  | member hw hb hc hv _ he _ ih ih' =>
    obtain ⟨x₇, rfl, h₇⟩ := ih'
    obtain ⟨x₆, rfl, h₆⟩ := he.split_cons
    obtain ⟨x₅, rfl, h₅⟩ := ih
    obtain ⟨x₄, rfl, -, h₄⟩ := hv.split
    obtain ⟨x₃, rfl, h₃⟩ := hc.split_cons
    obtain ⟨x₂, rfl, h₂⟩ := hb.split
    obtain ⟨x₁, rfl, h₁⟩ := hw.split_cons
    refine ⟨x₁ ++ (x₂ ++ (x₃ ++ (x₄ ++ (x₅ ++ (x₆ ++ x₇))))), by simp only [List.append_assoc], ?_⟩
    intro r'
    simp only [List.append_assoc]
    exact .member (h₁ _) (h₂ _) (h₃ _) (h₄ _) (h₅ _) (h₆ _) (h₇ r')

end Json

end Lib

end Tensorplate
