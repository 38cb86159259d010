import Tensorplate.Lib.Decimal
import Tensorplate.Protocol.Model.JsonNumbers

/-!
# The exact value of a number lexeme

`lexeme_exact_value` is read against the grammar: on a number it judges the
parts the grammar names, and on anything else it answers that there is no
number. The judgement is then about one decimal: the span of its digits
between the outer nonzero ones, and the positions of these two, which the
saturating arithmetic gets right because no text is longer than an `isize`.
-/

namespace Tensorplate

namespace Protocol

open Lib Lib.Json

/-! ## The parts of a lexeme -/

/-- An exponent against the range of an `i64`. -/
def classify (v : ℤ) : LexemeExponent :=
  if i64Min ≤ v ∧ v ≤ i64Max then .value v
  else if v < 0 then .negativeOverflow
  else .positiveOverflow

theorem isDigit_ne {c d : Char} (h : c.isDigit = true) (hd : d.isDigit = false) : c ≠ d := by
  rintro rfl
  cases h.symm.trans hd

theorem stripSign_of_digit {c : Char} {cs : List Char} (h : c.isDigit = true) :
    stripSign (c :: cs) = c :: cs := by
  have hp := isDigit_ne h (show '+'.isDigit = false from rfl)
  have hm := isDigit_ne h (show '-'.isDigit = false from rfl)
  unfold stripSign
  split
  · next he => cases he; exact absurd rfl hp
  · next he => cases he; exact absurd rfl hm
  · rfl

theorem stripSign_sign {sign : Option Char} {ds : List Char} (hd : DigitRun ds)
    (hs : ∀ s ∈ sign, s = '+' ∨ s = '-') : stripSign (sign.toList ++ ds) = ds := by
  cases sign with
  | none =>
    obtain ⟨c, cs, rfl⟩ := List.exists_cons_of_ne_nil hd.1
    exact stripSign_of_digit (hd.2 c (List.mem_cons_self ..))
  | some s =>
    rcases hs s rfl with rfl | rfl
    · rfl
    · rfl

theorem head_minus_iff {sign : Option Char} {ds : List Char} (hd : DigitRun ds) :
    (sign.toList ++ ds).head? = some '-' ↔ sign = some '-' := by
  cases sign with
  | none =>
    obtain ⟨c, cs, rfl⟩ := List.exists_cons_of_ne_nil hd.1
    have hm := isDigit_ne (hd.2 c (List.mem_cons_self ..)) (show '-'.isDigit = false from rfl)
    exact ⟨fun h => absurd (Option.some.inj h) hm, nofun⟩
  | some s => exact Iff.rfl

theorem all_digits_iff {ds : List Char} : ds.all Char.isDigit = true ↔
    ∀ c ∈ ds, c.isDigit = true := List.all_eq_true

/-- The value behind an exponent's sign. -/
def signedValue (sign : Option Char) (ds : List Char) : ℤ :=
  if sign = some '-' then -(decimal ds : ℤ) else decimal ds

theorem parseI64_eq {sign : Option Char} {ds : List Char} (hd : DigitRun ds)
    (hs : ∀ s ∈ sign, s = '+' ∨ s = '-') :
    parseI64 (sign.toList ++ ds) = if i64Min ≤ signedValue sign ds ∧ signedValue sign ds ≤ i64Max
      then some (signedValue sign ds) else none := by
  have hgram : ¬ (ds = [] ∨ ¬ ds.all Char.isDigit) := by
    rintro (h | h)
    · exact hd.1 h
    · exact h (all_digits_iff.2 hd.2)
  have hv : (if (sign.toList ++ ds).head? = some '-' then -(Nat.ofDigitChars 10 ds 0 : ℤ)
      else Nat.ofDigitChars 10 ds 0) = signedValue sign ds := by
    by_cases hneg : sign = some '-'
    · rw [if_pos ((head_minus_iff hd).2 hneg), signedValue, if_pos hneg]
      rfl
    · rw [if_neg fun h => hneg ((head_minus_iff hd).1 h), signedValue, if_neg hneg]
      rfl
  unfold parseI64
  rw [stripSign_sign hd hs, if_neg hgram]
  dsimp only
  rw [hv]

/-- The exponent of a lexeme is read as the grammar means it. -/
theorem lexemeExponent_eq {sign : Option Char} {ds : List Char} (hd : DigitRun ds)
    (hs : ∀ s ∈ sign, s = '+' ∨ s = '-') :
    lexemeExponent (sign.toList ++ ds) = some (classify (signedValue sign ds)) := by
  have hgram : ¬ (ds = [] ∨ ¬ ds.all Char.isDigit) := by
    rintro (h | h)
    · exact hd.1 h
    · exact h (all_digits_iff.2 hd.2)
  unfold lexemeExponent classify
  rw [parseI64_eq hd hs, stripSign_sign hd hs]
  by_cases hr : i64Min ≤ signedValue sign ds ∧ signedValue sign ds ≤ i64Max
  · rw [if_pos hr, if_pos hr]
  · rw [if_neg hr, if_neg hr]
    dsimp only
    rw [if_neg hgram]
    by_cases hneg : sign = some '-'
    · have hlt : signedValue sign ds < 0 := by
        unfold signedValue i64Min i64Max at hr
        unfold signedValue
        rw [if_pos hneg] at hr ⊢
        omega
      rw [if_pos ((head_minus_iff hd).2 hneg), if_pos hlt]
    · have hge : ¬ signedValue sign ds < 0 := by
        unfold signedValue
        rw [if_neg hneg]
        omega
      rw [if_neg fun h => hneg ((head_minus_iff hd).1 h), if_neg hge]

/-- What the grammar refuses is no exponent. -/
theorem lexemeExponent_some {e : List Char} {x : LexemeExponent} (h : lexemeExponent e = some x) :
    ∃ sign ds, e = Option.toList sign ++ ds ∧ (∀ s ∈ sign, s = '+' ∨ s = '-') ∧ DigitRun ds := by
  have hgram : ¬ (stripSign e = [] ∨ ¬ (stripSign e).all Char.isDigit) := by
    intro hg
    have hp : parseI64 e = none := by
      unfold parseI64
      exact if_pos hg
    unfold lexemeExponent at h
    rw [hp] at h
    dsimp only at h
    rw [if_pos hg] at h
    cases h
  have hrun : DigitRun (stripSign e) := by
    constructor
    · exact fun hn => hgram (.inl hn)
    · by_contra hn
      exact hgram (.inr fun ha => hn (all_digits_iff.1 ha))
  unfold stripSign at hrun
  split at hrun
  · next rest => exact ⟨some '+', rest, rfl, by simp, hrun⟩
  · next rest => exact ⟨some '-', rest, rfl, by simp, hrun⟩
  · exact ⟨none, e, rfl, nofun, hrun⟩

/-! ## The grammar of the token -/

theorem stripMinus_text (n : Number) :
    stripMinus n.text = (n.neg, n.int ++ (n.fracText ++ n.expText)) := by
  unfold Number.text Number.signText
  cases hneg : n.neg with
  | true => rfl
  | false =>
    obtain ⟨c, cs, hint⟩ := List.exists_cons_of_ne_nil n.int_run.1
    have hc : c.isDigit = true := n.int_run.2 c (by rw [hint]; exact List.mem_cons_self ..)
    have hm := isDigit_ne hc (show '-'.isDigit = false from rfl)
    rw [hint]
    unfold stripMinus
    split
    · next he =>
      simp only [Bool.false_eq_true, if_false, List.nil_append, List.cons_append,
        List.cons.injEq] at he
      exact absurd he.1 hm
    · rfl

theorem not_expLetter_of_digit {c : Char} (h : c.isDigit = true) : isExpLetter c = false := by
  have h1 := isDigit_ne h (show 'e'.isDigit = false from rfl)
  have h2 := isDigit_ne h (show 'E'.isDigit = false from rfl)
  simp [isExpLetter, h1, h2]

theorem mantissa_no_letter (n : Number) : ∀ c ∈ n.int ++ n.fracText, isExpLetter c = false := by
  intro c hc
  rcases List.mem_append.1 hc with hc | hc
  · exact not_expLetter_of_digit (n.int_run.2 c hc)
  · unfold Number.fracText at hc
    cases hf : n.frac with
    | none =>
      rw [hf] at hc
      cases hc
    | some f =>
      rw [hf] at hc
      rcases List.mem_cons.1 hc with rfl | hc
      · rfl
      · exact not_expLetter_of_digit ((n.frac_run f hf).2 c hc)

theorem splitExponent_text (n : Number) :
    splitExponent (n.int ++ (n.fracText ++ n.expText)) =
      some (n.int ++ n.fracText, classify n.exponent) := by
  have hno := mantissa_no_letter n
  unfold splitExponent
  rw [← List.append_assoc]
  cases he : n.exp with
  | none =>
    have htext : n.expText = [] := by
      unfold Number.expText
      rw [he]
    have hval : n.exponent = 0 := by
      unfold Number.exponent
      rw [he]
    rw [htext, List.append_nil, splitFirst_eq_none.2 hno, hval]
    rfl
  | some e =>
    obtain ⟨letter, sign, ds⟩ := e
    have htext : n.expText = letter :: (sign.toList ++ ds) := by
      unfold Number.expText
      rw [he]
    have hval : n.exponent = signedValue sign ds := by
      unfold Number.exponent
      rw [he]
      rfl
    have hletter : isExpLetter letter = true := by
      rcases n.exp_letter _ he with h | h
      · simp only at h
        rw [h]
        rfl
      · simp only at h
        rw [h]
        rfl
    rw [htext, splitFirst_append hletter hno]
    dsimp only
    rw [lexemeExponent_eq (n.exp_run _ he) (n.exp_sign _ he), hval]
    rfl

theorem splitMantissa_text (n : Number) :
    splitMantissa (n.int ++ n.fracText) = (n.int, n.frac.getD []) := by
  have hno : ∀ c ∈ n.int, decide (c = '.') = false := fun c hc =>
    decide_eq_false (isDigit_ne (n.int_run.2 c hc) (show '.'.isDigit = false from rfl))
  unfold splitMantissa Number.fracText
  cases hf : n.frac with
  | none =>
    rw [List.append_nil, splitFirst_eq_none.2 hno]
    rfl
  | some f =>
    dsimp only
    rw [splitFirst_append (by simp) hno]
    rfl

theorem mantissaOk_text (n : Number) :
    mantissaOk (n.int ++ n.fracText) n.int (n.frac.getD []) = true := by
  have hlead : (1 < n.int.length && n.int.head? = some '0') = false := by
    rw [Bool.and_eq_false_iff]
    by_cases h : 1 < n.int.length
    · exact .inr (by simpa using n.int_lead h)
    · exact .inl (by simpa using h)
  have hint : n.int.all Char.isDigit = true := all_digits_iff.2 n.int_run.2
  unfold mantissaOk
  rw [hlead]
  cases hf : n.frac with
  | none =>
    have hdot : '.' ∉ n.int := fun h => by
      cases (n.int_run.2 '.' h).symm.trans (show '.'.isDigit = false from rfl)
    simp [Number.fracText, hf, n.int_run.1, hint, hdot]
  | some f =>
    have hrun := n.frac_run f hf
    have hall : f.all Char.isDigit = true := all_digits_iff.2 hrun.2
    simp [Number.fracText, hf, n.int_run.1, hint, hrun.1, hall]

/-- On a number the judgement is on the parts the grammar names. -/
theorem lexemeExactValue_text (n : Number) :
    lexemeExactValue n.text = judgeDigits n.neg n.digits n.int.length (classify n.exponent) := by
  unfold lexemeExactValue
  rw [stripMinus_text]
  dsimp only
  rw [splitExponent_text]
  dsimp only
  rw [splitMantissa_text]
  dsimp only
  rw [mantissaOk_text]
  rfl

theorem stripMinus_eq (token : List Char) :
    token = (if (stripMinus token).1 then ['-'] else []) ++ (stripMinus token).2 := by
  unfold stripMinus
  split <;> rfl

/-- The exponent a split finds is one of the grammar's. -/
theorem splitExponent_some {rest mantissa : List Char} {x : LexemeExponent}
    (h : splitExponent rest = some (mantissa, x)) :
    ∃ exp : Option (Char × Option Char × List Char),
      rest = mantissa ++ (match exp with
        | none => []
        | some (letter, sign, ds) => letter :: (sign.toList ++ ds)) ∧
      (∀ e ∈ exp, e.1 = 'e' ∨ e.1 = 'E') ∧ (∀ e ∈ exp, ∀ s ∈ e.2.1, s = '+' ∨ s = '-') ∧
      ∀ e ∈ exp, DigitRun e.2.2 := by
  unfold splitExponent at h
  cases hs : splitFirst isExpLetter rest with
  | none =>
    rw [hs] at h
    cases h
    exact ⟨none, (List.append_nil _).symm, nofun, nofun, nofun⟩
  | some parts =>
    obtain ⟨m, c, e⟩ := parts
    rw [hs] at h
    dsimp only at h
    rw [Option.map_eq_some_iff] at h
    obtain ⟨y, hy, he⟩ := h
    cases he
    obtain ⟨hrest, hc, -⟩ := splitFirst_eq_some hs
    obtain ⟨sign, ds, rfl, hsign, hds⟩ := lexemeExponent_some hy
    refine ⟨some (c, sign, ds), hrest, ?_, ?_, ?_⟩
    · rintro _ ⟨⟩
      simpa [isExpLetter] using hc
    · rintro _ ⟨⟩
      exact hsign
    · rintro _ ⟨⟩
      exact hds

/-- The mantissa a grammar check passes is one of the grammar's. -/
theorem mantissa_of_ok {mantissa : List Char}
    (h : mantissaOk mantissa (splitMantissa mantissa).1 (splitMantissa mantissa).2 = true) :
    ∃ (int : List Char) (frac : Option (List Char)), DigitRun int ∧
      (1 < int.length → int.head? ≠ some '0') ∧ (∀ f ∈ frac, DigitRun f) ∧
      mantissa = int ++ (match frac with
        | none => []
        | some f => '.' :: f) := by
  unfold mantissaOk at h
  simp only [Bool.and_eq_true, Bool.not_eq_true', Bool.or_eq_false_iff, Bool.and_eq_false_iff,
    decide_eq_false_iff_not, Bool.not_eq_false'] at h
  obtain ⟨hlead, ⟨⟨hne, hdot⟩, hint⟩, hfrac⟩ := h
  have hrun : DigitRun (splitMantissa mantissa).1 := ⟨hne, all_digits_iff.1 hint⟩
  have hlead' : 1 < (splitMantissa mantissa).1.length →
      (splitMantissa mantissa).1.head? ≠ some '0' := fun hl =>
    hlead.resolve_left fun hn => hn hl
  unfold splitMantissa at hrun hlead' hdot hfrac
  cases hs : splitFirst (fun c => decide (c = '.')) mantissa with
  | none =>
    rw [hs] at hrun hlead'
    exact ⟨mantissa, none, hrun, hlead', nofun, (List.append_nil _).symm⟩
  | some parts =>
    obtain ⟨i, c, f⟩ := parts
    rw [hs] at hrun hlead' hdot hfrac
    obtain ⟨hm, hc, -⟩ := splitFirst_eq_some hs
    have hc' : c = '.' := by simpa using hc
    rw [hc'] at hm
    refine ⟨i, some f, hrun, hlead', ?_, hm⟩
    rintro _ ⟨⟩
    refine ⟨fun hf => ?_, all_digits_iff.1 hfrac⟩
    rcases hdot with hd | hd
    · exact hd hf
    · exact hd (by rw [hm]; simp)

/-- What is no number is left alone. -/
theorem lexemeExactValue_of_not_number {token : List Char} (h : ¬ IsNumber token) :
    lexemeExactValue token = some (.ok none) := by
  unfold lexemeExactValue
  dsimp only
  cases hs : splitExponent (stripMinus token).2 with
  | none => rfl
  | some parts =>
    obtain ⟨mantissa, x⟩ := parts
    dsimp only
    cases hok : mantissaOk mantissa (splitMantissa mantissa).1 (splitMantissa mantissa).2 with
    | false => rfl
    | true =>
      exfalso
      obtain ⟨exp, hrest, hletter, hsign, hrun⟩ := splitExponent_some hs
      obtain ⟨int, frac, hint, hlead, hfrac, hm⟩ := mantissa_of_ok hok
      apply h
      refine ⟨⟨(stripMinus token).1, int, frac, exp, hint, hlead, hfrac, hletter, hsign, hrun⟩, ?_⟩
      rw [hm, List.append_assoc] at hrest
      have htoken := stripMinus_eq token
      rw [hrest] at htoken
      exact htoken.symm

/-! ## The span of the digits -/

theorem zeros_of_findIdx {l : List Char} {i : ℕ} (h : l.findIdx? (· ≠ '0') = some i) :
    ∃ c cs, l = List.replicate i '0' ++ c :: cs ∧ c ≠ '0' := by
  induction l generalizing i with
  | nil => cases h
  | cons c cs ih =>
    rw [List.findIdx?_cons] at h
    by_cases hc : c = '0'
    · rw [if_neg (by simp [hc]), Option.map_eq_some_iff] at h
      obtain ⟨i', hi, rfl⟩ := h
      obtain ⟨d, ds, rfl, hd⟩ := ih hi
      exact ⟨d, ds, by rw [hc, List.replicate_succ]; rfl, hd⟩
    · rw [if_pos (by simpa using hc)] at h
      cases h
      exact ⟨c, cs, rfl, hc⟩

theorem decimal_of_no_nonzero {l : List Char} (h : l.findIdx? (· ≠ '0') = none) :
    decimal l = 0 := by
  have hall : ∀ c ∈ l, c = '0' := by
    intro c hc
    have := List.findIdx?_eq_none_iff.1 h c hc
    simpa using this
  rw [List.eq_replicate_of_mem hall]
  have := decimal_zeros [] l.length
  rw [List.nil_append] at this
  rw [this]
  exact Nat.zero_mul _

/-- The digits between the outer nonzero ones. -/
structure Span (digits : List Char) (first last : ℕ) (span : List Char) : Prop where
  eq : (digits.drop first).take (last + 1 - first) = span
  length : span.length = last + 1 - first
  le : first ≤ last
  lt : last < digits.length
  value : decimal digits = decimal span * 10 ^ (digits.length - 1 - last)
  head : ∃ c cs, span = c :: cs ∧ c ≠ '0'
  getLast : ∃ cs c, span = cs ++ [c] ∧ c ≠ '0'

theorem exists_span {digits : List Char} {first last : ℕ}
    (hf : digits.findIdx? (· ≠ '0') = some first) (hl : lastNonzero digits = some last) :
    ∃ span, Span digits first last span := by
  obtain ⟨c, cs, hfront, hc⟩ := zeros_of_findIdx hf
  unfold lastNonzero at hl
  rw [Option.map_eq_some_iff] at hl
  obtain ⟨j, hj, hlast⟩ := hl
  obtain ⟨c', cs', hback, hc'⟩ := zeros_of_findIdx hj
  have hback' : digits = (cs'.reverse ++ [c']) ++ List.replicate j '0' := by
    rw [← List.reverse_reverse digits, hback]
    simp
  have hlen := congrArg List.length hback'
  have hlen' := congrArg List.length hfront
  simp only [List.length_append, List.length_reverse, List.length_cons, List.length_nil,
    List.length_replicate] at hlen hlen'
  have hcs' : cs'.length = last := by omega
  -- a nonzero digit does not stand in the zeros at the end
  have hle : first ≤ last := by
    by_contra hgt
    have h1 : digits[first]? = some c := by
      rw [hfront, List.getElem?_append_right (by simp)]
      simp
    have h2 : digits[first]? = some '0' := by
      rw [hback', List.getElem?_append_right (by simp; omega), List.getElem?_replicate]
      simp
      omega
    exact hc (Option.some.inj (h1.symm.trans h2))
  have htake : digits.take (last + 1) = cs'.reverse ++ [c'] := by
    rw [hback']
    exact List.take_left' (by simp; omega)
  have hspan : (digits.drop first).take (last + 1 - first) =
      cs'.reverse.drop first ++ [c'] := by
    rw [← List.drop_take, htake, List.drop_append_of_le_length (by simp; omega)]
  have hzeros : digits = List.replicate first '0' ++
      ((digits.drop first).take (last + 1 - first) ++ List.replicate j '0') := by
    have h1 : digits.take (last + 1) = List.replicate first '0' ++
        (digits.drop first).take (last + 1 - first) := by
      rw [← List.drop_take]
      have h2 := List.take_append_drop first (digits.take (last + 1))
      rw [List.take_take, min_eq_left (by omega)] at h2
      have h3 : digits.take first = List.replicate first '0' := by
        rw [hfront]
        exact List.take_left' (by simp)
      rw [h3] at h2
      exact h2.symm
    rw [← List.append_assoc, ← h1, htake]
    exact hback'
  refine ⟨_, rfl, ?_, hle, by omega, ?_, ?_, ?_⟩
  · rw [List.length_take, List.length_drop]
    omega
  · have h4 : digits.length - 1 - last = j := by omega
    have h5 := congrArg decimal hzeros
    rw [decimal_zeros_append, decimal_zeros] at h5
    rw [h4]
    exact h5
  · have h6 : digits.drop first = c :: cs := by
      rw [hfront]
      exact List.drop_left' (by simp)
    obtain ⟨m, hm⟩ : ∃ m, last + 1 - first = m + 1 := ⟨last - first, by omega⟩
    rw [h6, hm]
    exact ⟨c, cs.take m, rfl, hc⟩
  · exact ⟨cs'.reverse.drop first, c', hspan, hc'⟩

theorem lastNonzero_of_first {digits : List Char} {first : ℕ}
    (hf : digits.findIdx? (· ≠ '0') = some first) : ∃ last, lastNonzero digits = some last := by
  obtain ⟨c, cs, hfront, hc⟩ := zeros_of_findIdx hf
  unfold lastNonzero
  cases hj : digits.reverse.findIdx? (· ≠ '0') with
  | some j => exact ⟨_, rfl⟩
  | none =>
    have hmem : c ∈ digits.reverse := by
      rw [hfront]
      simp
    have := List.findIdx?_eq_none_iff.1 hj c hmem
    exact absurd (by simpa using this) hc

/-! ## The arithmetic -/

/-- Lengths and indices of a text fit an `i64`; only the exponent can make
a position saturate. -/
theorem position_eq {intLen i : ℕ} (e : ℤ) (hl : intLen ≤ isizeMax) (hi : i ≤ isizeMax) :
    position intLen e i = saturate (intLen - 1 - i + e) := by
  have h63 : (isizeMax : ℤ) = i64Max := rfl
  have h1 : toI64 intLen = intLen := by
    unfold toI64
    omega
  have h2 : toI64 i = i := by
    unfold toI64
    omega
  have h3 : saturate ((intLen : ℤ) - 1) = intLen - 1 := by
    unfold saturate i64Min
    omega
  have h4 : saturate ((intLen : ℤ) - 1 - i) = intLen - 1 - i := by
    unfold saturate i64Min
    unfold i64Max at h63 ⊢
    omega
  unfold position
  rw [h1, h2, h3, h4]

theorem saturate_neg {x : ℤ} : saturate x < 0 ↔ x < 0 := by
  unfold saturate i64Min i64Max
  omega

theorem le_saturate {x : ℤ} : 16 ≤ saturate x ↔ 16 ≤ x := by
  unfold saturate i64Min i64Max
  omega

theorem saturate_of_small {x : ℤ} (h0 : 0 ≤ x) (h1 : x < 16) : saturate x = x := by
  unfold saturate i64Min i64Max
  omega

/-- Sixteen digits leave room in a `u64`. -/
theorem accumulate_eq {ds : List Char} (h : ∀ c ∈ ds, c.isDigit = true) :
    ∀ v, (v + 1) * 10 ^ ds.length ≤ u64Size →
      accumulate v ds = some (v * 10 ^ ds.length + decimal ds) := by
  induction ds with
  | nil =>
    intro v _
    rw [accumulate, List.length_nil, Nat.pow_zero, Nat.mul_one]
    rfl
  | cons c cs ih =>
    intro v hv
    have hd := digit_le_nine (h c (List.mem_cons_self ..))
    generalize hg : c.toNat - '0'.toNat = g at hd
    have hpos : 1 ≤ 10 ^ cs.length := Nat.one_le_pow _ _ (by omega)
    have hbound : (v * 10 + g + 1) * 10 ^ cs.length ≤ u64Size := by
      have h1 : (v * 10 + g + 1) * 10 ^ cs.length ≤ ((v + 1) * 10) * 10 ^ cs.length :=
        Nat.mul_le_mul_right _ (by omega)
      rw [List.length_cons, Nat.pow_succ, Nat.mul_comm (10 ^ cs.length), ← Nat.mul_assoc] at hv
      exact Nat.le_trans h1 hv
    have hroom : v * 10 + g < u64Size := by
      have h1 := Nat.mul_le_mul_left (v * 10 + g + 1) hpos
      omega
    rw [accumulate, hg, pushDigit, if_pos hroom, Option.bind_some,
      ih (fun d hd => h d (List.mem_cons_of_mem _ hd)) _ hbound, decimal_cons, hg,
      List.length_cons, Nat.pow_succ]
    congr 1
    ring

theorem scale_eq : ∀ n v, v * 10 ^ n < u64Size → scale v n = some (v * 10 ^ n) := by
  intro n
  induction n with
  | zero =>
    intro v _
    rw [scale, Nat.pow_zero, Nat.mul_one]
  | succ n ih =>
    intro v hv
    have hmul : v * 10 * 10 ^ n = v * 10 ^ (n + 1) := by
      rw [Nat.pow_succ]
      ring
    have hpos : 1 ≤ 10 ^ n := Nat.one_le_pow _ _ (by omega)
    have hroom : v * 10 + 0 < u64Size := by
      have := Nat.mul_le_mul_left (v * 10) hpos
      omega
    rw [scale, pushDigit, if_pos hroom, Option.bind_some, Nat.add_zero, ih _ (by rw [hmul]; exact hv), hmul]

/-! ## The judgement -/

/-- An integer of the byte-value domain. -/
def InDomain (v : ℚ) : Prop := ∃ k : ℕ, k ≤ maxSafeBytes ∧ v = k

/-- What is to be said of a number of value `v`. -/
def Judged (v : ℚ) (r : Option (Except String (Option ℕ))) : Prop :=
  (∃ k : ℕ, k ≤ maxSafeBytes ∧ v = k ∧ r = some (.ok (some k))) ∨
    (¬ InDomain v ∧ ∃ reason, r = some (.error reason))

theorem judged_zero {v : ℚ} (h : v = 0) : Judged v (some (.ok (some 0))) :=
  .inl ⟨0, Nat.zero_le _, by rw [h]; rfl, rfl⟩

theorem not_inDomain_of_neg {v : ℚ} (h : v < 0) : ¬ InDomain v := by
  rintro ⟨k, -, rfl⟩
  have : (0 : ℚ) ≤ k := Nat.cast_nonneg k
  exact absurd h (not_lt.2 this)

theorem not_inDomain_of_big {v : ℚ} (h : (10 : ℚ) ^ 16 ≤ v) : ¬ InDomain v := by
  rintro ⟨k, hk, rfl⟩
  have hcast : (10 : ℕ) ^ 16 ≤ k := by exact_mod_cast h
  unfold maxSafeBytes at hk
  omega

section

variable {digits span : List Char} {first last : ℕ} {q : ℤ}

theorem span_digits (hd : ∀ c ∈ digits, c.isDigit = true) (hs : Span digits first last span) :
    ∀ c ∈ span, c.isDigit = true := by
  intro c hc
  rw [← hs.eq] at hc
  exact hd c (List.mem_of_mem_drop (List.mem_of_mem_take hc))

theorem span_mod (hd : ∀ c ∈ digits, c.isDigit = true) (hs : Span digits first last span) :
    decimal span % 10 ≠ 0 := by
  obtain ⟨cs, c, he, hc⟩ := hs.getLast
  have hdig := span_digits hd hs c (by rw [he]; simp)
  rw [he]
  exact decimal_concat_mod cs hdig hc

theorem pow_le_span (hd : ∀ c ∈ digits, c.isDigit = true) (hs : Span digits first last span) :
    10 ^ (last - first) ≤ decimal span := by
  obtain ⟨c, cs, he, hc⟩ := hs.head
  have hdig := span_digits hd hs c (by rw [he]; exact List.mem_cons_self ..)
  have hlen := hs.length
  rw [he, List.length_cons] at hlen
  have hcs : cs.length = last - first := by
    have := hs.le
    omega
  rw [he, ← hcs]
  exact pow_le_decimal hdig hc

/-- A span whose first digit stands at position 16 or above is too large. -/
theorem not_inDomain_of_first (hd : ∀ c ∈ digits, c.isDigit = true)
    (hs : Span digits first last span) (hq : 16 ≤ q + (last - first : ℕ)) :
    ¬ InDomain ((decimal span : ℚ) * 10 ^ q) := by
  apply not_inDomain_of_big
  have hpow : ((10 ^ (last - first) : ℕ) : ℚ) ≤ decimal span := by
    exact_mod_cast pow_le_span hd hs
  have hten : (0 : ℚ) ≤ (10 : ℚ) ^ q := by positivity
  calc (10 : ℚ) ^ 16 = (10 : ℚ) ^ (16 : ℤ) := by norm_cast
    _ ≤ (10 : ℚ) ^ (q + (last - first : ℕ)) := zpow_le_zpow_right₀ (by norm_num) hq
    _ = ((10 ^ (last - first) : ℕ) : ℚ) * 10 ^ q := by
      rw [zpow_add₀ (by norm_num), zpow_natCast, mul_comm]
      push_cast
      rfl
    _ ≤ (decimal span : ℚ) * 10 ^ q := mul_le_mul_of_nonneg_right hpow hten

theorem not_inDomain_of_last (hd : ∀ c ∈ digits, c.isDigit = true)
    (hs : Span digits first last span) (hq : q < 0) :
    ¬ InDomain ((decimal span : ℚ) * 10 ^ q) := by
  rintro ⟨k, -, h⟩
  exact not_natural_of_neg (span_mod hd hs) hq h

/-- The span is judged by its exact value. -/
theorem judged_span {intLen : ℕ} {e : ℤ} (hd : ∀ c ∈ digits, c.isDigit = true)
    (hs : Span digits first last span) (hl : intLen ≤ isizeMax) (hlen : digits.length ≤ isizeMax) :
    Judged ((decimal span : ℚ) * 10 ^ (intLen - 1 - last + e))
      (judgeSpan digits intLen e first last) := by
  have hlt := hs.lt
  have hle := hs.le
  have hp : position intLen e last = saturate (intLen - 1 - last + e) :=
    position_eq e hl (by omega)
  have hp' : position intLen e first = saturate (intLen - 1 - first + e) :=
    position_eq e hl (by omega)
  unfold judgeSpan
  rw [hp, hp', hs.eq]
  by_cases hneg : (intLen : ℤ) - 1 - last + e < 0
  · rw [if_pos (saturate_neg.2 hneg)]
    exact .inr ⟨not_inDomain_of_last hd hs hneg, _, rfl⟩
  · rw [if_neg fun h => hneg (saturate_neg.1 h)]
    by_cases hbig : 16 ≤ (intLen : ℤ) - 1 - first + e
    · rw [if_pos (le_saturate.2 hbig)]
      exact .inr ⟨not_inDomain_of_first hd hs (by omega), _, rfl⟩
    · rw [if_neg fun h => hbig (le_saturate.1 h)]
      -- at most sixteen positions: nothing below leaves a `u64`
      have hsmall : saturate ((intLen : ℤ) - 1 - last + e) = intLen - 1 - last + e :=
        saturate_of_small (by omega) (by omega)
      rw [hsmall]
      have hdig := span_digits hd hs
      have hslen := hs.length
      generalize hqe : (intLen : ℤ) - 1 - last + e = q at hneg ⊢
      have hwidth : span.length + q.toNat ≤ 16 := by omega
      have hsixteen : decimal span * 10 ^ q.toNat < 10 ^ 16 := by
        have h1 : decimal span * 10 ^ q.toNat < 10 ^ span.length * 10 ^ q.toNat :=
          Nat.mul_lt_mul_of_pos_right (decimal_lt hdig) (Nat.pow_pos (by omega))
        rw [← Nat.pow_add] at h1
        exact Nat.lt_of_lt_of_le h1 (Nat.pow_le_pow_right (by omega) hwidth)
      have hacc : accumulate 0 span = some (decimal span) := by
        have h2 : (0 + 1) * 10 ^ span.length ≤ u64Size := by
          rw [Nat.zero_add, Nat.one_mul]
          have : (10 : ℕ) ^ span.length ≤ 10 ^ 16 := Nat.pow_le_pow_right (by omega) (by omega)
          unfold u64Size
          omega
        rw [accumulate_eq hdig 0 h2, Nat.zero_mul, Nat.zero_add]
      rw [hacc]
      dsimp only
      rw [scale_eq _ _ (by unfold u64Size; omega)]
      dsimp only
      have hval := natural_of_nonneg (decimal span) (q := q) (by omega)
      by_cases hmax : maxSafeBytes < decimal span * 10 ^ q.toNat
      · rw [if_pos hmax]
        refine .inr ⟨?_, _, rfl⟩
        rintro ⟨k, hk, he⟩
        have hnat : decimal span * 10 ^ q.toNat = k := by exact_mod_cast hval.symm.trans he
        omega
      · rw [if_neg hmax]
        exact .inl ⟨_, by omega, hval, rfl⟩

end

section

variable (n : Number)

theorem digits_isDigit : ∀ c ∈ n.digits, c.isDigit = true := by
  intro c hc
  rcases List.mem_append.1 hc with hc | hc
  · exact n.int_run.2 c hc
  · cases hf : n.frac with
    | none =>
      rw [hf] at hc
      cases hc
    | some f =>
      rw [hf] at hc
      exact (n.frac_run f hf).2 c hc

theorem length_digits : n.digits.length = n.int.length + (n.frac.getD []).length := by
  unfold Number.digits
  exact List.length_append

theorem length_text : n.text.length =
    n.signText.length + (n.int.length + (n.fracText.length + n.expText.length)) := by
  unfold Number.text
  simp only [List.length_append]

theorem frac_length_le : (n.frac.getD []).length ≤ n.fracText.length := by
  unfold Number.fracText
  cases n.frac with
  | none => exact Nat.le_refl _
  | some f => exact Nat.le_succ _

/-- An exponent past an `i64` takes nineteen digits to write. -/
theorem expText_of_overflow (h : i64Max < n.exponent) : 20 ≤ n.expText.length := by
  unfold Number.exponent at h
  unfold Number.expText
  cases he : n.exp with
  | none =>
    rw [he] at h
    exact absurd h (by decide)
  | some e =>
    obtain ⟨letter, sign, ds⟩ := e
    rw [he] at h
    dsimp only at h ⊢
    have hbig : 10 ^ 18 < decimal ds := by
      unfold i64Max at h
      split_ifs at h <;> omega
    have hlt := decimal_lt (n.exp_run _ he).2
    have hlen : 18 < ds.length :=
      (Nat.pow_lt_pow_iff_right (by omega : 1 < 10)).1 (Nat.lt_trans hbig hlt)
    rw [List.length_cons, List.length_append]
    omega

/-- The value by its span: the position of the last nonzero digit scales
it. -/
theorem value_eq_span {first last : ℕ} {span : List Char} (hs : Span n.digits first last span) :
    n.value = (if n.neg then -1 else 1) *
      ((decimal span : ℚ) * 10 ^ ((n.int.length : ℤ) - 1 - last + n.exponent)) := by
  have hlen := length_digits n
  have hlt := hs.lt
  have hexp : (n.int.length : ℤ) - 1 - last + n.exponent =
      ((n.digits.length - 1 - last : ℕ) : ℤ) + (n.exponent - (n.frac.getD []).length) := by
    omega
  unfold Number.value
  rw [hs.value, hexp, zpow_add₀ (by norm_num), zpow_natCast]
  push_cast
  ring

/-- **A number is judged by its exact value.** -/
theorem judged_text (hlen : n.text.length ≤ isizeMax) :
    Judged n.value (lexemeExactValue n.text) := by
  have htext := length_text n
  have hdigits := length_digits n
  have hfrac := frac_length_le n
  rw [lexemeExactValue_text]
  unfold judgeDigits
  cases hf : n.digits.findIdx? (· ≠ '0') with
  | none =>
    have h0 : decimal n.digits = 0 := decimal_of_no_nonzero hf
    refine judged_zero ?_
    unfold Number.value
    rw [h0]
    simp
  | some first =>
    obtain ⟨last, hl⟩ := lastNonzero_of_first hf
    obtain ⟨span, hs⟩ := exists_span hf hl
    have hd := digits_isDigit n
    have hlt := hs.lt
    have hle := hs.le
    rw [hl, value_eq_span n hs]
    dsimp only
    cases hneg : n.neg with
    | true =>
      refine .inr ⟨not_inDomain_of_neg ?_, _, rfl⟩
      have hpos : (0 : ℚ) < decimal span := by
        have := Nat.lt_of_lt_of_le (Nat.pow_pos (by omega)) (pow_le_span hd hs)
        exact_mod_cast this
      have hten : (0 : ℚ) < 10 ^ ((n.int.length : ℤ) - 1 - last + n.exponent) := by positivity
      simp only [if_true]
      linarith [mul_pos hpos hten]
    | false =>
      simp only [Bool.false_eq_true, if_false, one_mul]
      unfold classify
      split_ifs with hr hn
      · exact judged_span hd hs (by omega) (by omega)
      · refine .inr ⟨not_inDomain_of_last hd hs ?_, _, rfl⟩
        unfold i64Min i64Max at hr
        unfold isizeMax at hlen
        omega
      · have hover : i64Max < n.exponent := by
          unfold i64Min at hr
          omega
        have hexp := expText_of_overflow n hover
        refine .inr ⟨not_inDomain_of_first hd hs ?_, _, rfl⟩
        unfold i64Max at hover
        unfold isizeMax at hlen
        omega

end

end Protocol

end Tensorplate
