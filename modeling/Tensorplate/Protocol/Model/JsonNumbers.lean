import Tensorplate.Lib.Json
import Tensorplate.Lib.Split

/-!
# Number lexemes of byte-valued documents

`lexeme_exact_value` judges one number token by its digits, and
`canonicalize_byte_lexemes` rewrites every number token of a document.
Texts are lists of characters: every byte the source tells apart is ASCII,
and a longer character is passed over as a whole. The arithmetic of the
source is bounded: a position saturates in an `i64`, and an accumulation
that leaves a `u64` would panic, which is `none` here.
-/

namespace Tensorplate

namespace Protocol

open Lib

/-- `MAX_SAFE_BYTES`. -/
def maxSafeBytes : ℕ := 2 ^ 53 - 1

/-- The longest a Rust string can be: `isize::MAX` bytes. -/
def isizeMax : ℕ := 2 ^ 63 - 1

/-! ## One lexeme -/

/-- `LexemeExponent`. -/
inductive LexemeExponent
  | value (v : ℤ)
  | negativeOverflow
  | positiveOverflow
  deriving DecidableEq, Repr

/-- The digits behind an optional sign. -/
def stripSign (e : List Char) : List Char :=
  match e with
  | '+' :: rest => rest
  | '-' :: rest => rest
  | _ => e

def i64Max : ℤ := 2 ^ 63 - 1

def i64Min : ℤ := -2 ^ 63

/-- `str::parse::<i64>`. -/
def parseI64 (e : List Char) : Option ℤ :=
  let digits := stripSign e
  if digits = [] ∨ ¬ digits.all Char.isDigit then none
  else
    let magnitude : ℤ := Nat.ofDigitChars 10 digits 0
    let v := if e.head? = some '-' then -magnitude else magnitude
    if i64Min ≤ v ∧ v ≤ i64Max then some v else none

/-- The exponent of a lexeme, or `none` when it is a grammar error. -/
def lexemeExponent (e : List Char) : Option LexemeExponent :=
  match parseI64 e with
  | some v => some (.value v)
  | none =>
    let magnitude := stripSign e
    if magnitude = [] ∨ ¬ magnitude.all Char.isDigit then none
    else if e.head? = some '-' then some .negativeOverflow
    else some .positiveOverflow

/-- An `i64` operation that saturates. -/
def saturate (x : ℤ) : ℤ := max i64Min (min x i64Max)

/-- `usize` to `i64`, or the largest one. -/
def toI64 (n : ℕ) : ℤ := min (n : ℤ) i64Max

/-- The decimal position of the digit at index `i`; 0 is the units place. -/
def position (intLen : ℕ) (exponent : ℤ) (i : ℕ) : ℤ :=
  saturate (saturate (saturate (toI64 intLen - 1) - toI64 i) + exponent)

/-- A `u64` holds what is below. -/
def u64Size : ℕ := 2 ^ 64

/-- `value * 10 + d` in a `u64`; `none` is the overflow. -/
def pushDigit (value d : ℕ) : Option ℕ :=
  if value * 10 + d < u64Size then some (value * 10 + d) else none

/-- The span of digits, accumulated. -/
def accumulate : ℕ → List Char → Option ℕ
  | value, [] => some value
  | value, c :: cs => (pushDigit value (c.toNat - '0'.toNat)).bind fun v => accumulate v cs

/-- The zeros behind the last digit. -/
def scale : ℕ → ℕ → Option ℕ
  | value, 0 => some value
  | value, n + 1 => (pushDigit value 0).bind fun v => scale v n

def negativeReason : String := "negative values are not in the byte-value domain"

def fractionalReason : String := "fractional values are not in the byte-value domain"

def exceedsReason : String :=
  "exceeds the largest exactly-representable byte value (2^53 - 1)"

/-- The mantissa cut at its point. -/
def splitMantissa (mantissa : List Char) : List Char × List Char :=
  match splitFirst (· = '.') mantissa with
  | some (i, _, f) => (i, f)
  | none => (mantissa, [])

/-- The judgement on a nonzero mantissa: `first` and `last` are the indices
of its outer nonzero digits. -/
def judgeSpan (digits : List Char) (intLen : ℕ) (exponent : ℤ) (first last : ℕ) :
    Option (Except String (Option ℕ)) :=
  if position intLen exponent last < 0 then some (.error fractionalReason)
  else if 16 ≤ position intLen exponent first then some (.error exceedsReason)
  else
    match accumulate 0 ((digits.drop first).take (last + 1 - first)) with
    | none => none
    | some value =>
      match scale value (position intLen exponent last).toNat with
      | none => none
      | some value =>
        if maxSafeBytes < value then some (.error exceedsReason) else some (.ok (some value))

/-- `rposition` of a nonzero digit. -/
def lastNonzero (digits : List Char) : Option ℕ :=
  (digits.reverse.findIdx? (· ≠ '0')).map (digits.length - 1 - ·)

/-- The token behind its minus sign. -/
def stripMinus (token : List Char) : Bool × List Char :=
  match token with
  | '-' :: rest => (true, rest)
  | _ => (false, token)

/-- The letter of an exponent. -/
def isExpLetter (c : Char) : Bool := c = 'e' || c = 'E'

/-- The mantissa and the exponent, or `none` when that is a grammar error. -/
def splitExponent (rest : List Char) : Option (List Char × LexemeExponent) :=
  match splitFirst isExpLetter rest with
  | some (m, _, e) => (lexemeExponent e).map (m, ·)
  | none => some (rest, .value 0)

/-- What the grammar asks of the mantissa. -/
def mantissaOk (mantissa intDigits fracDigits : List Char) : Bool :=
  !(1 < intDigits.length && intDigits.head? = some '0') &&
    !(intDigits = [] || (fracDigits = [] && '.' ∈ mantissa) ||
      !intDigits.all Char.isDigit || !fracDigits.all Char.isDigit)

/-- `lexeme_exact_value` behind the grammar. -/
def judgeDigits (negative : Bool) (digits : List Char) (intLen : ℕ) (exponent : LexemeExponent) :
    Option (Except String (Option ℕ)) :=
  match digits.findIdx? (· ≠ '0') with
  | none => some (.ok (some 0))
  | some first =>
    match lastNonzero digits with
    | none => some (.ok none)
    | some last =>
      if negative then some (.error negativeReason)
      else match exponent with
        | .negativeOverflow => some (.error fractionalReason)
        | .positiveOverflow => some (.error exceedsReason)
        | .value exponent => judgeSpan digits intLen exponent first last

/-- `lexeme_exact_value`; the outer `none` is an arithmetic overflow. -/
def lexemeExactValue (token : List Char) : Option (Except String (Option ℕ)) :=
  let (negative, rest) := stripMinus token
  match splitExponent rest with
  | none => some (.ok none)
  | some (mantissa, exponent) =>
    let (intDigits, fracDigits) := splitMantissa mantissa
    if mantissaOk mantissa intDigits fracDigits then
      judgeDigits negative (intDigits ++ fracDigits) intDigits.length exponent
    else some (.ok none)

/-! ## A document -/

/-- The rest of a string behind its opening quote: what is passed over, and
what is left. -/
def skipString : List Char → List Char × List Char
  | [] => ([], [])
  | '"' :: rest => (['"'], rest)
  | ['\\'] => (['\\'], [])
  | '\\' :: c :: rest => let (s, r) := skipString rest; ('\\' :: c :: s, r)
  | c :: rest => let (s, r) := skipString rest; (c :: s, r)

/-- A token starts with a minus sign or a digit. -/
def startsToken (c : Char) : Bool := c = '-' || c.isDigit

theorem skipString_length (t : List Char) : (skipString t).2.length ≤ t.length := by
  fun_induction skipString t <;> simp_all <;> omega

theorem dropWhile_length_lt {c : Char} (t : List Char) (h : startsToken c = true) :
    ((c :: t).dropWhile Json.isNumberChar).length < (c :: t).length := by
  have hc : Json.isNumberChar c = true := by
    unfold startsToken at h
    unfold Json.isNumberChar
    simp only [Bool.or_eq_true, decide_eq_true_eq] at h ⊢
    tauto
  rw [List.dropWhile_cons_of_pos hc]
  exact Nat.lt_succ_of_le (List.dropWhile_sublist _).length_le

/-- `canonicalize_byte_lexemes`: the document with every number token in
its canonical spelling, or the token that has none. What lies between the
tokens is copied where the scan passes it. -/
def canonicalizeByteLexemes (raw : List Char) :
    Option (Except (List Char × String) (List Char)) :=
  match raw with
  | [] => some (.ok [])
  | c :: rest =>
    if c = '"' then
      (canonicalizeByteLexemes (skipString rest).2).map fun r =>
        r.map fun out => '"' :: ((skipString rest).1 ++ out)
    else if startsToken c then
      let token := (c :: rest).takeWhile Json.isNumberChar
      match lexemeExactValue token with
      | none => none
      | some (.error reason) => some (.error (token, reason))
      | some (.ok none) =>
        (canonicalizeByteLexemes ((c :: rest).dropWhile Json.isNumberChar)).map fun r =>
          r.map fun out => token ++ out
      | some (.ok (some value)) =>
        (canonicalizeByteLexemes ((c :: rest).dropWhile Json.isNumberChar)).map fun r =>
          r.map fun out => Nat.toDigits 10 value ++ out
    else
      (canonicalizeByteLexemes rest).map fun r => r.map fun out => c :: out
termination_by raw.length
decreasing_by
  · exact Nat.lt_succ_of_le (skipString_length rest)
  · exact dropWhile_length_lt rest ‹_›
  · exact dropWhile_length_lt rest ‹_›
  · exact Nat.lt_succ_self _

end Protocol

end Tensorplate
