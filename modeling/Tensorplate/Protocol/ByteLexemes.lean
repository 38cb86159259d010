import Tensorplate.Protocol.JsonNumbers

/-!
# Rewriting the numbers of a document

`canonicalize_byte_lexemes` looks for quotes and number characters only.
Read against the grammar, that is enough: a derivation of the document
gives one of its rewriting, and a derivation of the rewriting one of the
document, with the same strings and structure and every number in its plain
spelling. A text that is no JSON stays none, since a token is replaced only
where it is a number already and never joins its neighbours.
-/

namespace Tensorplate

namespace Protocol

open Lib Lib.Json

/-! ## What is promised -/

/-- The second value is the first with every number in the plain spelling
of its exact value. -/
inductive Respelled : Value → Value → Prop
  | null : Respelled .null .null
  | bool (b : Bool) : Respelled (.bool b) (.bool b)
  | num (n : Number) (k : ℕ) : n.value = k → Respelled (.num n.text) (.num (Nat.toDigits 10 k))
  | str (s : List ℕ) : Respelled (.str s) (.str s)
  | arr {vs ws : List Value} : List.Forall₂ Respelled vs ws → Respelled (.arr vs) (.arr ws)
  | obj {ms ns : List (List ℕ × Value)} : ms.map Prod.fst = ns.map Prod.fst →
    List.Forall₂ Respelled (ms.map Prod.snd) (ns.map Prod.snd) → Respelled (.obj ms) (.obj ns)

/-- The scan gets from a text to what is left of it, outside strings and
between tokens. -/
inductive Scans : List Char → List Char → Prop
  | refl (t : List Char) : Scans t t
  | string {t r : List Char} : Scans (skipString t).2 r → Scans ('"' :: t) r
  | other {c : Char} {t r : List Char} : c ≠ '"' → startsToken c = false → Scans t r →
    Scans (c :: t) r
  | token {c : Char} {t r : List Char} : startsToken c = true →
    Scans ((c :: t).dropWhile isNumberChar) r → Scans (c :: t) r

/-- A number token of the document, outside its strings, whose value is
outside the domain. -/
def Offending (raw token : List Char) : Prop :=
  ∃ c t, Scans raw (c :: t) ∧ startsToken c = true ∧ token = (c :: t).takeWhile isNumberChar ∧
    ∃ n : Number, n.text = token ∧ ¬ InDomain n.value

/-- The document is rewritten to `out`. -/
def Canon (raw out : List Char) : Prop := canonicalizeByteLexemes raw = some (.ok out)

/-! ## Steps of the scan -/

theorem canon_nil {out : List Char} : Canon [] out ↔ out = [] := by
  unfold Canon
  rw [canonicalizeByteLexemes]
  simp only [Option.some.injEq, Except.ok.injEq]
  exact eq_comm

theorem map_ok_iff {ε α β : Type} {x : Option (Except ε α)} {f : α → β} {b : β} :
    x.map (fun r => r.map f) = some (.ok b) ↔ ∃ a, x = some (.ok a) ∧ b = f a := by
  rcases x with _ | e | a
  · exact ⟨nofun, fun ⟨_, h, _⟩ => nomatch h⟩
  · exact ⟨nofun, fun ⟨_, h, _⟩ => nomatch h⟩
  · constructor
    · intro h
      cases h
      exact ⟨a, rfl, rfl⟩
    · rintro ⟨_, ⟨⟩, rfl⟩
      rfl

theorem canon_quote {t out : List Char} : Canon ('"' :: t) out ↔
    ∃ o, Canon (skipString t).2 o ∧ out = '"' :: ((skipString t).1 ++ o) := by
  unfold Canon
  rw [canonicalizeByteLexemes, if_pos rfl]
  exact map_ok_iff

theorem canon_other {c : Char} {t out : List Char} (hq : c ≠ '"') (hs : startsToken c = false) :
    Canon (c :: t) out ↔ ∃ o, Canon t o ∧ out = c :: o := by
  unfold Canon
  rw [canonicalizeByteLexemes, if_neg hq, if_neg (by rw [hs]; exact Bool.false_ne_true)]
  exact map_ok_iff

theorem quote_not_token : startsToken '"' = false := rfl

theorem canon_token {c : Char} {t out : List Char} (hs : startsToken c = true) :
    Canon (c :: t) out ↔ ∃ o, Canon ((c :: t).dropWhile isNumberChar) o ∧
      ((∃ k, lexemeExactValue ((c :: t).takeWhile isNumberChar) = some (.ok (some k)) ∧
          out = Nat.toDigits 10 k ++ o) ∨
        (lexemeExactValue ((c :: t).takeWhile isNumberChar) = some (.ok none) ∧
          out = (c :: t).takeWhile isNumberChar ++ o)) := by
  have hq : c ≠ '"' := by
    rintro rfl
    cases quote_not_token.symm.trans hs
  unfold Canon
  rw [canonicalizeByteLexemes, if_neg hq, if_pos hs]
  dsimp only
  rcases hl : lexemeExactValue ((c :: t).takeWhile isNumberChar) with _ | reason | _ | k
  · exact ⟨fun h => (by cases h), by rintro ⟨_, _, ⟨_, h, _⟩ | ⟨h, _⟩⟩ <;> cases h⟩
  · exact ⟨fun h => (by cases h), by rintro ⟨_, _, ⟨_, h, _⟩ | ⟨h, _⟩⟩ <;> cases h⟩
  · refine map_ok_iff.trans ⟨?_, ?_⟩
    · rintro ⟨o, ho, rfl⟩
      exact ⟨o, ho, .inr ⟨rfl, rfl⟩⟩
    · rintro ⟨o, ho, ⟨_, h, _⟩ | ⟨_, rfl⟩⟩
      · cases h
      · exact ⟨o, ho, rfl⟩
  · refine map_ok_iff.trans ⟨?_, ?_⟩
    · rintro ⟨o, ho, rfl⟩
      exact ⟨o, ho, .inl ⟨k, rfl, rfl⟩⟩
    · rintro ⟨o, ho, ⟨_, h, rfl⟩ | ⟨h, _⟩⟩
      · cases h
        exact ⟨o, ho, rfl⟩
      · cases h

/-! ## Characters -/

theorem isNumberChar_of_startsToken {c : Char} (h : startsToken c = true) :
    isNumberChar c = true := by
  unfold startsToken at h
  unfold isNumberChar
  simp only [Bool.or_eq_true, decide_eq_true_eq] at h ⊢
  tauto

theorem startsToken_of_digit {c : Char} (h : c.isDigit = true) : startsToken c = true := by
  unfold startsToken
  rw [h, Bool.or_true]

theorem not_startsToken {c : Char} (h : isNumberChar c = false) : startsToken c = false := by
  cases hs : startsToken c with
  | false => rfl
  | true => cases (isNumberChar_of_startsToken hs).symm.trans h

/-- A number starts a token. -/
theorem text_head (n : Number) : ∃ c cs, n.text = c :: cs ∧ startsToken c = true := by
  obtain ⟨c, cs, htext, rfl | hd⟩ := n.text_cons
  · exact ⟨'-', cs, htext, rfl⟩
  · exact ⟨c, cs, htext, startsToken_of_digit hd⟩

/-! ## Strings -/

theorem skipString_close (r : List Char) : skipString ('"' :: r) = (['"'], r) := rfl

theorem skipString_escape (c : Char) (r : List Char) : skipString ('\\' :: c :: r) =
    ('\\' :: c :: (skipString r).1, (skipString r).2) := rfl

theorem skipString_plain {c : Char} (r : List Char) (hq : c ≠ '"') (hb : c ≠ '\\') :
    skipString (c :: r) = (c :: (skipString r).1, (skipString r).2) := by
  rw [skipString.eq_def]
  split
  · next he => cases he
  · next he => cases he; exact absurd rfl hq
  · next he => cases he; exact absurd rfl hb
  · next he => cases he; exact absurd rfl hb
  · next he => cases he; rfl

/-- What the scan passes over, and what is left, make up the text; and it
either closes the string or reaches the end. -/
theorem skipString_spec (t : List Char) : t = (skipString t).1 ++ (skipString t).2 ∧
    ((skipString t).2 = [] ∨ ∀ r, skipString ((skipString t).1 ++ r) = ((skipString t).1, r)) := by
  fun_induction skipString t with
  | case1 => exact ⟨rfl, .inl rfl⟩
  | case2 rest => exact ⟨rfl, .inr fun r => rfl⟩
  | case3 => exact ⟨rfl, .inl rfl⟩
  | case4 c rest s r hs ih =>
    rw [hs] at ih
    refine ⟨by rw [ih.1]; rfl, ih.2.imp_right fun h r' => ?_⟩
    show skipString ('\\' :: c :: (s ++ r')) = _
    rw [skipString_escape, h r']
  | case5 c rest hq hb1 hb2 s r hs ih =>
    rw [hs] at ih
    refine ⟨by rw [ih.1]; rfl, ih.2.imp_right fun h r' => ?_⟩
    have hq' : c ≠ '"' := fun he => hq he
    have hb' : c ≠ '\\' := by
      rintro rfl
      cases rest with
      | nil => exact hb1 rfl rfl
      | cons d ds => exact hb2 d ds rfl rfl
    show skipString (c :: (s ++ r')) = _
    rw [skipString_plain _ hq' hb', h r']

/-- The body of a string is what the scan passes over, whatever follows. -/
theorem body_skips {t r : List Char} {u : List ℕ} (h : Body t u r) :
    skipString t = ((skipString t).1, r) ∧ ∀ r', Body ((skipString t).1 ++ r') u r' := by
  induction h with
  | close r => exact ⟨rfl, fun r' => .close r'⟩
  | plain hq hb hc _ ih =>
    rw [skipString_plain _ hq hb, ih.1]
    exact ⟨rfl, fun r' => .plain hq hb hc (ih.2 r')⟩
  | short hc _ ih =>
    rw [skipString_escape, ih.1]
    exact ⟨rfl, fun r' => .short hc (ih.2 r')⟩
  | @hex a b c d n t r u hx _ ih =>
    -- the scan takes the four digits one by one, and none of them ends it
    have hdig : ∀ x ∈ [a, b, c, d], x ≠ '"' ∧ x ≠ '\\' := by
      have hsome : ∀ x, (∃ m, hexDigit x = some m) → x ≠ '"' ∧ x ≠ '\\' := by
        rintro x ⟨m, hm⟩
        constructor
        · rintro rfl
          cases hm
        · rintro rfl
          cases hm
      simp only [hexUnit, Option.bind_eq_bind, Option.bind_eq_some_iff] at hx
      obtain ⟨a', ha, b', hb, c', hc, d', hd, -⟩ := hx
      intro x hmem
      simp only [List.mem_cons, List.not_mem_nil, or_false] at hmem
      rcases hmem with rfl | rfl | rfl | rfl
      · exact hsome _ ⟨_, ha⟩
      · exact hsome _ ⟨_, hb⟩
      · exact hsome _ ⟨_, hc⟩
      · exact hsome _ ⟨_, hd⟩
    obtain ⟨ha1, ha2⟩ := hdig a (by simp)
    obtain ⟨hb1, hb2⟩ := hdig b (by simp)
    obtain ⟨hc1, hc2⟩ := hdig c (by simp)
    obtain ⟨hd1, hd2⟩ := hdig d (by simp)
    rw [skipString_escape, skipString_plain _ ha1 ha2, skipString_plain _ hb1 hb2,
      skipString_plain _ hc1 hc2, skipString_plain _ hd1 hd2, ih.1]
    exact ⟨rfl, fun r' => .hex hx (ih.2 r')⟩

theorem body_split {t r : List Char} {u : List ℕ} (h : Body t u r) :
    t = (skipString t).1 ++ r := by
  have h1 := (skipString_spec t).1
  rw [(body_skips h).1] at h1
  exact h1

/-- The body of a string in the rewriting is the document's. -/
theorem body_of_canon {t o r : List Char} {u : List ℕ} (hc : Canon (skipString t).2 o)
    (hb : Body ((skipString t).1 ++ o) u r) : ∃ t', Body t u t' ∧ Canon t' r := by
  obtain ⟨ht, hend | hclosed⟩ := skipString_spec t
  · rw [hend] at hc ht
    have ho : o = [] := canon_nil.1 hc
    rw [ho, ← ht] at hb
    have hr : r = [] := by
      have := (body_skips hb).1
      rw [Prod.ext_iff] at this
      exact this.2.symm.trans hend
    rw [hr] at hb ⊢
    exact ⟨[], hb, canon_nil.2 rfl⟩
  · have hs := hclosed o
    obtain ⟨h1, h2⟩ := body_skips hb
    rw [hs] at h1 h2
    have hro : r = o := (Prod.ext_iff.1 h1).2.symm
    refine ⟨(skipString t).2, ?_, hro ▸ hc⟩
    have := h2 (skipString t).2
    rw [← ht] at this
    exact this

/-! ## From the document to its rewriting -/

/-- The pieces of a derivation, respelled. -/
inductive PieceRespelled : Piece → Piece → Prop
  | value {v w : Value} : Respelled v w → PieceRespelled (.value v) (.value w)
  | items {vs ws : List Value} : List.Forall₂ Respelled vs ws →
    PieceRespelled (.items vs) (.items ws)
  | members {ms ns : List (List ℕ × Value)} : ms.map Prod.fst = ns.map Prod.fst →
    List.Forall₂ Respelled (ms.map Prod.snd) (ns.map Prod.snd) →
    PieceRespelled (.members ms) (.members ns)

theorem isWs_other {c : Char} (h : isWs c = true) : c ≠ '"' ∧ startsToken c = false := by
  refine ⟨?_, not_startsToken (isNumberChar_of_isWs h)⟩
  rintro rfl
  cases h

theorem canon_ws {t r out : List Char} (h : Ws t r) (hc : Canon t out) :
    ∃ o, Ws out o ∧ Canon r o := by
  induction h generalizing out with
  | nil => exact ⟨out, .nil out, hc⟩
  | cons hw _ ih =>
    obtain ⟨hq, hs⟩ := isWs_other hw
    obtain ⟨o, ho, rfl⟩ := (canon_other hq hs).1 hc
    obtain ⟨o', hws, ho'⟩ := ih ho
    exact ⟨o', .cons hw hws, ho'⟩

/-- White space up to a character the scan copies. -/
theorem canon_ws_char {c : Char} {t r out : List Char} (hq : c ≠ '"') (hs : startsToken c = false)
    (h : Ws t (c :: r)) (hc : Canon t out) : ∃ o, Ws out (c :: o) ∧ Canon r o := by
  obtain ⟨o, hws, ho⟩ := canon_ws h hc
  obtain ⟨o', ho', rfl⟩ := (canon_other hq hs).1 ho
  exact ⟨o', hws, ho'⟩

/-- White space up to a string. -/
theorem canon_ws_string {t t' r out : List Char} {u : List ℕ} (h : Ws t ('"' :: t'))
    (hb : Body t' u r) (hc : Canon t out) : ∃ o o', Ws out ('"' :: o) ∧ Body o u o' ∧ Canon r o' := by
  obtain ⟨o, hws, ho⟩ := canon_ws h hc
  obtain ⟨o', ho', rfl⟩ := canon_quote.1 ho
  obtain ⟨h1, h2⟩ := body_skips hb
  rw [h1] at ho'
  exact ⟨_, o', hws, h2 o', ho'⟩

/-- A number token is rewritten to the plain spelling of its value. -/
theorem canon_number {n : Number} {r out : List Char} (hr : Follow r)
    (hlen : (n.text ++ r).length ≤ isizeMax) (hc : Canon (n.text ++ r) out) :
    ∃ k o, n.value = (k : ℕ) ∧ out = Nat.toDigits 10 k ++ o ∧ Canon r o := by
  obtain ⟨htake, hdrop⟩ := takeWhile_append_follow (text_isNumberChar n) hr
  obtain ⟨c, cs, htext, hs⟩ := text_head n
  have hcons : n.text ++ r = c :: (cs ++ r) := by
    rw [htext]
    rfl
  have hj := judged_text n (by rw [List.length_append] at hlen; omega)
  rw [hcons] at hc htake hdrop
  obtain ⟨o, ho, hcase⟩ := (canon_token hs).1 hc
  rw [htake, hdrop] at *
  rcases hcase with ⟨k, hk, rfl⟩ | ⟨hnone, -⟩
  · rcases hj with ⟨k', -, hv, hk'⟩ | ⟨-, reason, he⟩
    · cases hk.symm.trans hk'
      exact ⟨k, o, hv, rfl, ho⟩
    · cases hk.symm.trans he
  · rcases hj with ⟨k', -, -, hk'⟩ | ⟨-, reason, he⟩
    · cases hnone.symm.trans hk'
    · cases hnone.symm.trans he

/-- **A derivation of the document gives one of its rewriting.** -/
theorem derives_canon {t r out : List Char} {p : Piece} (h : Derives t p r)
    (hf : FollowsPiece p r) (hlen : t.length ≤ isizeMax) (hc : Canon t out) :
    ∃ o q, Derives out q o ∧ Canon r o ∧ PieceRespelled p q := by
  induction h generalizing out with
  | null r =>
    obtain ⟨o₁, h₁, rfl⟩ := (canon_other (by decide) rfl).1 hc
    obtain ⟨o₂, h₂, rfl⟩ := (canon_other (by decide) rfl).1 h₁
    obtain ⟨o₃, h₃, rfl⟩ := (canon_other (by decide) rfl).1 h₂
    obtain ⟨o₄, h₄, rfl⟩ := (canon_other (by decide) rfl).1 h₃
    exact ⟨o₄, _, .null o₄, h₄, .value .null⟩
  | true r =>
    obtain ⟨o₁, h₁, rfl⟩ := (canon_other (by decide) rfl).1 hc
    obtain ⟨o₂, h₂, rfl⟩ := (canon_other (by decide) rfl).1 h₁
    obtain ⟨o₃, h₃, rfl⟩ := (canon_other (by decide) rfl).1 h₂
    obtain ⟨o₄, h₄, rfl⟩ := (canon_other (by decide) rfl).1 h₃
    exact ⟨o₄, _, .true o₄, h₄, .value (.bool true)⟩
  | false r =>
    obtain ⟨o₁, h₁, rfl⟩ := (canon_other (by decide) rfl).1 hc
    obtain ⟨o₂, h₂, rfl⟩ := (canon_other (by decide) rfl).1 h₁
    obtain ⟨o₃, h₃, rfl⟩ := (canon_other (by decide) rfl).1 h₂
    obtain ⟨o₄, h₄, rfl⟩ := (canon_other (by decide) rfl).1 h₃
    obtain ⟨o₅, h₅, rfl⟩ := (canon_other (by decide) rfl).1 h₄
    exact ⟨o₅, _, .false o₅, h₅, .value (.bool false)⟩
  | num n r =>
    obtain ⟨k, o, hv, rfl, ho⟩ := canon_number hf hlen hc
    refine ⟨o, .value (.num (Nat.toDigits 10 k)), ?_, ho, .value (.num n k hv)⟩
    have := Derives.num (Number.plain false k) o
    rw [Number.plain_text] at this
    exact this
  | str hb =>
    obtain ⟨o, ho, rfl⟩ := canon_quote.1 hc
    obtain ⟨h1, h2⟩ := body_skips hb
    rw [show (skipString _).2 = _ from congrArg Prod.snd h1] at ho
    exact ⟨o, _, .str (h2 o), ho, .value (.str _)⟩
  | emptyArr hw =>
    obtain ⟨o₁, h₁, rfl⟩ := (canon_other (by decide) rfl).1 hc
    obtain ⟨o, hws, ho⟩ := canon_ws_char (by decide) rfl hw h₁
    exact ⟨o, _, .emptyArr hws, ho, .value (.arr .nil)⟩
  | arr _ ih =>
    obtain ⟨o₁, h₁, rfl⟩ := (canon_other (by decide) rfl).1 hc
    obtain ⟨o, q, hd, ho, hq⟩ := ih trivial (Nat.le_of_succ_le hlen) h₁
    cases hq with
    | items hvs => exact ⟨o, _, .arr hd, ho, .value (.arr hvs)⟩
  | emptyObj hw =>
    obtain ⟨o₁, h₁, rfl⟩ := (canon_other (by decide) rfl).1 hc
    obtain ⟨o, hws, ho⟩ := canon_ws_char (by decide) rfl hw h₁
    exact ⟨o, _, .emptyObj hws, ho, .value (.obj rfl .nil)⟩
  | obj _ ih =>
    obtain ⟨o₁, h₁, rfl⟩ := (canon_other (by decide) rfl).1 hc
    obtain ⟨o, q, hd, ho, hq⟩ := ih trivial (Nat.le_of_succ_le hlen) h₁
    cases hq with
    | members hk hvs => exact ⟨o, _, .obj hd, ho, .value (.obj hk hvs)⟩
  | lastItem hw _ hw' ih =>
    obtain ⟨o₁, hws, h₁⟩ := canon_ws hw hc
    have hl := hw.length_le
    obtain ⟨o₂, q, hd, h₂, hq⟩ := ih (hw'.follow (follow_cons rfl _)) (by omega) h₁
    obtain ⟨o, hws', ho⟩ := canon_ws_char (by decide) rfl hw' h₂
    cases hq with
    | value hv => exact ⟨o, _, .lastItem hws hd hws', ho, .items (.cons hv .nil)⟩
  | item hw hdv hw' _ ih ih' =>
    obtain ⟨o₁, hws, h₁⟩ := canon_ws hw hc
    have hl := hw.length_le
    have hl' := hdv.length_le
    have hl'' := hw'.length_le
    rw [List.length_cons] at hl''
    obtain ⟨o₂, q, hd, h₂, hq⟩ := ih (hw'.follow (follow_cons rfl _)) (by omega) h₁
    obtain ⟨o₃, hws', h₃⟩ := canon_ws_char (by decide) rfl hw' h₂
    obtain ⟨o, q', hd', ho, hq'⟩ := ih' trivial (by omega) h₃
    cases hq with
    | value hv =>
      cases hq' with
      | items hvs => exact ⟨o, _, .item hws hd hws' hd', ho, .items (.cons hv hvs)⟩
  | lastMember hw hb hcol hw' hdv hend ih =>
    obtain ⟨o₁, o₂, hws, hb', h₂⟩ := canon_ws_string hw hb hc
    obtain ⟨o₃, hcol', h₃⟩ := canon_ws_char (by decide) rfl hcol h₂
    obtain ⟨o₄, hws', h₄⟩ := canon_ws hw' h₃
    have hl := hw.length_le
    have hlb := hb.length_le
    have hlc := hcol.length_le
    have hlw := hw'.length_le
    rw [List.length_cons] at hl hlc
    obtain ⟨o₅, q, hd, h₅, hq⟩ := ih (hend.follow (follow_cons rfl _)) (by omega) h₄
    obtain ⟨o, hend', ho⟩ := canon_ws_char (by decide) rfl hend h₅
    cases hq with
    | value hv =>
      exact ⟨o, _, .lastMember hws hb' hcol' hws' hd hend', ho, .members rfl (.cons hv .nil)⟩
  | member hw hb hcol hw' hdv hend _ ih ih' =>
    obtain ⟨o₁, o₂, hws, hb', h₂⟩ := canon_ws_string hw hb hc
    obtain ⟨o₃, hcol', h₃⟩ := canon_ws_char (by decide) rfl hcol h₂
    obtain ⟨o₄, hws', h₄⟩ := canon_ws hw' h₃
    have hl := hw.length_le
    have hlb := hb.length_le
    have hlc := hcol.length_le
    have hlw := hw'.length_le
    have hlv := hdv.length_le
    have hle := hend.length_le
    rw [List.length_cons] at hl hlc hle
    obtain ⟨o₅, q, hd, h₅, hq⟩ := ih (hend.follow (follow_cons rfl _)) (by omega) h₄
    obtain ⟨o₆, hend', h₆⟩ := canon_ws_char (by decide) rfl hend h₅
    obtain ⟨o, q', hd', ho, hq'⟩ := ih' trivial (by omega) h₆
    cases hq with
    | value hv =>
      cases hq' with
      | members hk hvs =>
        exact ⟨o, _, .member hws hb' hcol' hws' hd hend' hd', ho,
          .members (congrArg (_ :: ·) hk) (.cons hv hvs)⟩

/-! ## From the rewriting to the document -/

/-- Every rewriting starts as its document does, up to a number token. -/
theorem canon_head {raw out : List Char} (hc : Canon raw out) :
    (raw = [] ∧ out = []) ∨
    (∃ t o, raw = '"' :: t ∧ Canon (skipString t).2 o ∧ out = '"' :: ((skipString t).1 ++ o)) ∨
    (∃ c t o, raw = c :: t ∧ c ≠ '"' ∧ startsToken c = false ∧ Canon t o ∧ out = c :: o) ∨
    (∃ c t o x, raw = c :: t ∧ startsToken c = true ∧
      Canon ((c :: t).dropWhile isNumberChar) o ∧ out = x ++ o ∧
      ((∃ k, lexemeExactValue ((c :: t).takeWhile isNumberChar) = some (.ok (some k)) ∧
          x = Nat.toDigits 10 k) ∨
        (lexemeExactValue ((c :: t).takeWhile isNumberChar) = some (.ok none) ∧
          x = (c :: t).takeWhile isNumberChar))) := by
  cases raw with
  | nil => exact .inl ⟨rfl, canon_nil.1 hc⟩
  | cons c t =>
    by_cases hq : c = '"'
    · rw [hq] at hc ⊢
      obtain ⟨o, ho, rfl⟩ := canon_quote.1 hc
      exact .inr (.inl ⟨t, o, rfl, ho, rfl⟩)
    · cases hs : startsToken c with
      | false =>
        obtain ⟨o, ho, rfl⟩ := (canon_other hq hs).1 hc
        exact .inr (.inr (.inl ⟨c, t, o, rfl, hq, hs, ho, rfl⟩))
      | true =>
        obtain ⟨o, ho, ⟨k, hk, rfl⟩ | ⟨hn, rfl⟩⟩ := (canon_token hs).1 hc
        · exact .inr (.inr (.inr ⟨c, t, o, _, rfl, hs, ho, rfl, .inl ⟨k, hk, rfl⟩⟩))
        · exact .inr (.inr (.inr ⟨c, t, o, _, rfl, hs, ho, rfl, .inr ⟨hn, rfl⟩⟩))

theorem toDigits_head (k : ℕ) : ∃ d ds, Nat.toDigits 10 k = d :: ds ∧ d.isDigit = true := by
  obtain ⟨d, ds, h⟩ := List.exists_cons_of_ne_nil (Nat.toDigits_ne_nil (n := k) (b := 10))
  exact ⟨d, ds, h, isDigit_of_mem_toDigits (by rw [h]; exact List.mem_cons_self ..)⟩

/-- What replaces a token starts one, and is made of number characters. -/
theorem replaced_head {c : Char} {t x : List Char} (hs : startsToken c = true)
    (hx : (∃ k, lexemeExactValue ((c :: t).takeWhile isNumberChar) = some (.ok (some k)) ∧
          x = Nat.toDigits 10 k) ∨
        (lexemeExactValue ((c :: t).takeWhile isNumberChar) = some (.ok none) ∧
          x = (c :: t).takeWhile isNumberChar)) :
    (∃ d ds, x = d :: ds ∧ startsToken d = true) ∧ ∀ d ∈ x, isNumberChar d = true := by
  rcases hx with ⟨k, -, rfl⟩ | ⟨-, rfl⟩
  · obtain ⟨d, ds, h, hd⟩ := toDigits_head k
    exact ⟨⟨d, ds, h, startsToken_of_digit hd⟩, fun d hd =>
      isNumberChar_of_digit (isDigit_of_mem_toDigits hd)⟩
  · refine ⟨⟨c, t.takeWhile isNumberChar, ?_, hs⟩, fun d hd => ?_⟩
    · rw [List.takeWhile_cons_of_pos (isNumberChar_of_startsToken hs)]
    · exact List.all_eq_true.1 List.all_takeWhile d hd

theorem canon_inv_other {c : Char} {raw o : List Char} (hq : c ≠ '"') (hs : startsToken c = false)
    (hc : Canon raw (c :: o)) : ∃ t, raw = c :: t ∧ Canon t o := by
  rcases canon_head hc with ⟨-, h⟩ | ⟨t, o', -, -, h⟩ | ⟨d, t, o', rfl, -, -, ho, h⟩ |
    ⟨d, t, o', x, -, hd, -, h, hx⟩
  · cases h
  · cases h
    exact absurd rfl hq
  · cases h
    exact ⟨t, rfl, ho⟩
  · obtain ⟨⟨e, es, rfl, he⟩, -⟩ := replaced_head hd hx
    cases h
    cases hs.symm.trans he

theorem canon_inv_quote {raw o : List Char} (hc : Canon raw ('"' :: o)) :
    ∃ t o', raw = '"' :: t ∧ Canon (skipString t).2 o' ∧ o = (skipString t).1 ++ o' := by
  rcases canon_head hc with ⟨-, h⟩ | ⟨t, o', rfl, ho, h⟩ | ⟨d, t, o', -, hq, -, -, h⟩ |
    ⟨d, t, o', x, -, hd, -, h, hx⟩
  · cases h
  · cases h
    exact ⟨t, o', rfl, ho, rfl⟩
  · cases h
    exact absurd rfl hq
  · obtain ⟨⟨e, es, rfl, he⟩, -⟩ := replaced_head hd hx
    cases h
    cases quote_not_token.symm.trans he

/-- What does not continue a number does not after its rewriting either. -/
theorem canon_follow {t o : List Char} (hf : Follow t) (hc : Canon t o) : Follow o := by
  rcases canon_head hc with ⟨-, rfl⟩ | ⟨t, o', -, -, rfl⟩ | ⟨d, t, o', rfl, -, -, -, rfl⟩ |
    ⟨d, t, o', x, rfl, hd, -, rfl, -⟩
  · exact follow_nil
  · exact follow_cons rfl _
  · exact follow_cons (hf d rfl) _
  · cases (isNumberChar_of_startsToken hd).symm.trans (hf d rfl)

/-- A number of the rewriting is the plain spelling of one in the
document. -/
theorem number_of_canon {n : Number} {r raw : List Char} (hr : Follow r)
    (hlen : raw.length ≤ isizeMax) (hc : Canon raw (n.text ++ r)) :
    ∃ (m : Number) (k : ℕ) (t : List Char), raw = m.text ++ t ∧ m.value = k ∧
      n.text = Nat.toDigits 10 k ∧ Canon t r := by
  obtain ⟨c, cs, htext, hcs⟩ := text_head n
  have htake := takeWhile_append_follow (text_isNumberChar n) hr
  rcases canon_head hc with ⟨-, h⟩ | ⟨t, o', -, -, h⟩ | ⟨d, t, o', -, -, hd, -, h⟩ |
    ⟨d, t, o', x, rfl, hd, ho, h, hx⟩
  · rw [htext] at h
    cases h
  · rw [htext] at h
    rw [(List.cons.inj h).1] at hcs
    cases quote_not_token.symm.trans hcs
  · rw [htext] at h
    rw [(List.cons.inj h).1] at hcs
    cases hd.symm.trans hcs
  · have hx' := (replaced_head hd hx).2
    have hsplit := takeWhile_append_follow hx' (canon_follow (follow_dropWhile _) ho)
    rw [← h] at hsplit
    have hxn : x = n.text := hsplit.1.symm.trans htake.1
    have hor : o' = r := hsplit.2.symm.trans htake.2
    have htoken := List.takeWhile_append_dropWhile (p := isNumberChar) (l := d :: t)
    have hshort : ((d :: t).takeWhile isNumberChar).length ≤ isizeMax :=
      Nat.le_trans (List.takeWhile_sublist _).length_le hlen
    rw [hor] at ho
    rcases hx with ⟨k, hk, hxk⟩ | ⟨hnone, hxt⟩
    · by_cases hnum : IsNumber ((d :: t).takeWhile isNumberChar)
      · obtain ⟨m, hm⟩ := hnum
        have hj := judged_text m (by rw [hm]; exact hshort)
        rw [hm, hk] at hj
        rcases hj with ⟨k', -, hv, hk'⟩ | ⟨-, reason, he⟩
        · cases hk'
          exact ⟨m, k, _, by rw [hm]; exact htoken.symm, hv, hxn.symm.trans hxk, ho⟩
        · cases he
      · cases hk.symm.trans (lexemeExactValue_of_not_number hnum)
    · -- what is left alone is no number, and so is no number of the rewriting
      have hj := judged_text n (by rw [← hxn, hxt]; exact hshort)
      rw [← hxn, hxt, hnone] at hj
      rcases hj with ⟨k', -, -, hk'⟩ | ⟨-, reason, he⟩
      · cases hk'
      · cases he

theorem ws_of_canon {raw out o : List Char} (h : Ws out o) (hc : Canon raw out) :
    ∃ t, Ws raw t ∧ Canon t o := by
  induction h generalizing raw with
  | nil => exact ⟨raw, .nil raw, hc⟩
  | cons hw _ ih =>
    obtain ⟨hq, hs⟩ := isWs_other hw
    obtain ⟨t, rfl, ht⟩ := canon_inv_other hq hs hc
    obtain ⟨t', hws, ht'⟩ := ih ht
    exact ⟨t', .cons hw hws, ht'⟩

theorem ws_char_of_canon {c : Char} {raw out o : List Char} (hq : c ≠ '"')
    (hs : startsToken c = false) (h : Ws out (c :: o)) (hc : Canon raw out) :
    ∃ t, Ws raw (c :: t) ∧ Canon t o := by
  obtain ⟨t, hws, ht⟩ := ws_of_canon h hc
  obtain ⟨t', rfl, ht'⟩ := canon_inv_other hq hs ht
  exact ⟨t', hws, ht'⟩

theorem ws_string_of_canon {raw out o o' : List Char} {u : List ℕ} (h : Ws out ('"' :: o))
    (hb : Body o u o') (hc : Canon raw out) :
    ∃ t t', Ws raw ('"' :: t) ∧ Body t u t' ∧ Canon t' o' := by
  obtain ⟨t, hws, ht⟩ := ws_of_canon h hc
  obtain ⟨t', o'', rfl, hc', rfl⟩ := canon_inv_quote ht
  obtain ⟨t'', hb', hc''⟩ := body_of_canon hc' hb
  exact ⟨t', t'', hws, hb', hc''⟩

/-- **A derivation of the rewriting gives one of the document.** -/
theorem derives_of_canon {raw out o : List Char} {q : Piece} (h : Derives out q o)
    (hf : FollowsPiece q o) (hlen : raw.length ≤ isizeMax) (hc : Canon raw out) :
    ∃ t p, Derives raw p t ∧ Canon t o ∧ PieceRespelled p q := by
  induction h generalizing raw with
  | null r =>
    obtain ⟨t₁, rfl, h₁⟩ := canon_inv_other (by decide) rfl hc
    obtain ⟨t₂, rfl, h₂⟩ := canon_inv_other (by decide) rfl h₁
    obtain ⟨t₃, rfl, h₃⟩ := canon_inv_other (by decide) rfl h₂
    obtain ⟨t₄, rfl, h₄⟩ := canon_inv_other (by decide) rfl h₃
    exact ⟨t₄, _, .null t₄, h₄, .value .null⟩
  | true r =>
    obtain ⟨t₁, rfl, h₁⟩ := canon_inv_other (by decide) rfl hc
    obtain ⟨t₂, rfl, h₂⟩ := canon_inv_other (by decide) rfl h₁
    obtain ⟨t₃, rfl, h₃⟩ := canon_inv_other (by decide) rfl h₂
    obtain ⟨t₄, rfl, h₄⟩ := canon_inv_other (by decide) rfl h₃
    exact ⟨t₄, _, .true t₄, h₄, .value (.bool true)⟩
  | false r =>
    obtain ⟨t₁, rfl, h₁⟩ := canon_inv_other (by decide) rfl hc
    obtain ⟨t₂, rfl, h₂⟩ := canon_inv_other (by decide) rfl h₁
    obtain ⟨t₃, rfl, h₃⟩ := canon_inv_other (by decide) rfl h₂
    obtain ⟨t₄, rfl, h₄⟩ := canon_inv_other (by decide) rfl h₃
    obtain ⟨t₅, rfl, h₅⟩ := canon_inv_other (by decide) rfl h₄
    exact ⟨t₅, _, .false t₅, h₅, .value (.bool false)⟩
  | num n r =>
    obtain ⟨m, k, t, rfl, hv, htext, ht⟩ := number_of_canon hf hlen hc
    rw [htext]
    exact ⟨t, _, .num m t, ht, .value (.num m k hv)⟩
  | str hb =>
    obtain ⟨t, o', rfl, hc', rfl⟩ := canon_inv_quote hc
    obtain ⟨t', hb', ht'⟩ := body_of_canon hc' hb
    exact ⟨t', _, .str hb', ht', .value (.str _)⟩
  | emptyArr hw =>
    obtain ⟨t₁, rfl, h₁⟩ := canon_inv_other (by decide) rfl hc
    obtain ⟨t, hws, ht⟩ := ws_char_of_canon (by decide) rfl hw h₁
    exact ⟨t, _, .emptyArr hws, ht, .value (.arr .nil)⟩
  | arr _ ih =>
    obtain ⟨t₁, rfl, h₁⟩ := canon_inv_other (by decide) rfl hc
    obtain ⟨t, p, hd, ht, hp⟩ := ih trivial (Nat.le_of_succ_le hlen) h₁
    cases hp with
    | items hvs => exact ⟨t, _, .arr hd, ht, .value (.arr hvs)⟩
  | emptyObj hw =>
    obtain ⟨t₁, rfl, h₁⟩ := canon_inv_other (by decide) rfl hc
    obtain ⟨t, hws, ht⟩ := ws_char_of_canon (by decide) rfl hw h₁
    exact ⟨t, _, .emptyObj hws, ht, .value (.obj rfl .nil)⟩
  | obj _ ih =>
    obtain ⟨t₁, rfl, h₁⟩ := canon_inv_other (by decide) rfl hc
    obtain ⟨t, p, hd, ht, hp⟩ := ih trivial (Nat.le_of_succ_le hlen) h₁
    cases hp with
    | members hk hvs => exact ⟨t, _, .obj hd, ht, .value (.obj hk hvs)⟩
  | lastItem hw _ hw' ih =>
    obtain ⟨t₁, hws, h₁⟩ := ws_of_canon hw hc
    have hl := hws.length_le
    obtain ⟨t₂, p, hd, h₂, hp⟩ := ih (hw'.follow (follow_cons rfl _)) (by omega) h₁
    obtain ⟨t, hws', ht⟩ := ws_char_of_canon (by decide) rfl hw' h₂
    cases hp with
    | value hv => exact ⟨t, _, .lastItem hws hd hws', ht, .items (.cons hv .nil)⟩
  | item hw _ hw' _ ih ih' =>
    obtain ⟨t₁, hws, h₁⟩ := ws_of_canon hw hc
    have hl := hws.length_le
    obtain ⟨t₂, p, hd, h₂, hp⟩ := ih (hw'.follow (follow_cons rfl _)) (by omega) h₁
    obtain ⟨t₃, hws', h₃⟩ := ws_char_of_canon (by decide) rfl hw' h₂
    have hl' := hd.length_le
    have hl'' := hws'.length_le
    rw [List.length_cons] at hl''
    obtain ⟨t, p', hd', ht, hp'⟩ := ih' trivial (by omega) h₃
    cases hp with
    | value hv =>
      cases hp' with
      | items hvs => exact ⟨t, _, .item hws hd hws' hd', ht, .items (.cons hv hvs)⟩
  | lastMember hw hb hcol hw' _ hend ih =>
    obtain ⟨t₁, t₂, hws, hb', h₂⟩ := ws_string_of_canon hw hb hc
    obtain ⟨t₃, hcol', h₃⟩ := ws_char_of_canon (by decide) rfl hcol h₂
    obtain ⟨t₄, hws', h₄⟩ := ws_of_canon hw' h₃
    have hl := hws.length_le
    have hlb := hb'.length_le
    have hlc := hcol'.length_le
    have hlw := hws'.length_le
    rw [List.length_cons] at hl hlc
    obtain ⟨t₅, p, hd, h₅, hp⟩ := ih (hend.follow (follow_cons rfl _)) (by omega) h₄
    obtain ⟨t, hend', ht⟩ := ws_char_of_canon (by decide) rfl hend h₅
    cases hp with
    | value hv =>
      exact ⟨t, _, .lastMember hws hb' hcol' hws' hd hend', ht, .members rfl (.cons hv .nil)⟩
  | member hw hb hcol hw' _ hend _ ih ih' =>
    obtain ⟨t₁, t₂, hws, hb', h₂⟩ := ws_string_of_canon hw hb hc
    obtain ⟨t₃, hcol', h₃⟩ := ws_char_of_canon (by decide) rfl hcol h₂
    obtain ⟨t₄, hws', h₄⟩ := ws_of_canon hw' h₃
    have hl := hws.length_le
    have hlb := hb'.length_le
    have hlc := hcol'.length_le
    have hlw := hws'.length_le
    rw [List.length_cons] at hl hlc
    obtain ⟨t₅, p, hd, h₅, hp⟩ := ih (hend.follow (follow_cons rfl _)) (by omega) h₄
    obtain ⟨t₆, hend', h₆⟩ := ws_char_of_canon (by decide) rfl hend h₅
    have hlv := hd.length_le
    have hle := hend'.length_le
    rw [List.length_cons] at hle
    obtain ⟨t, p', hd', ht, hp'⟩ := ih' trivial (by omega) h₆
    cases hp with
    | value hv =>
      cases hp' with
      | members hk hvs =>
        exact ⟨t, _, .member hws hb' hcol' hws' hd hend' hd', ht,
          .members (congrArg (_ :: ·) hk) (.cons hv hvs)⟩

/-! ## The whole document -/

/-- A text is rewritten, or names a token outside the domain. -/
def Answered (raw : List Char) : Prop :=
  (∃ token reason, canonicalizeByteLexemes raw = some (.error (token, reason)) ∧
    Offending raw token) ∨ ∃ out, Canon raw out

/-- What is copied before the rest does not change how the rest is
answered. -/
theorem answered_of_rest {raw rest : List Char} (f : List Char → List Char)
    (hraw : canonicalizeByteLexemes raw =
      (canonicalizeByteLexemes rest).map fun r => r.map f)
    (hscan : ∀ r, Scans rest r → Scans raw r) (h : Answered rest) : Answered raw := by
  rcases h with ⟨token, reason, he, c, t, hs, hc, htok, hn⟩ | ⟨out, hout⟩
  · refine .inl ⟨token, reason, ?_, c, t, hscan _ hs, hc, htok, hn⟩
    rw [hraw, he]
    rfl
  · refine .inr ⟨f out, ?_⟩
    unfold Canon at hout ⊢
    rw [hraw, hout]
    rfl

theorem answered (raw : List Char) (hlen : raw.length ≤ isizeMax) : Answered raw := by
  induction hn : raw.length using Nat.strongRecOn generalizing raw with
  | ind n ih =>
    subst hn
    cases raw with
    | nil => exact .inr ⟨[], canon_nil.2 rfl⟩
    | cons c rest =>
      rw [List.length_cons] at hlen ih
      by_cases hq : c = '"'
      · subst hq
        have hshort := skipString_length rest
        refine answered_of_rest (fun out => '"' :: ((skipString rest).1 ++ out)) ?_
          (fun r => .string) (ih _ ?_ (skipString rest).2 ?_ rfl)
        · rw [canonicalizeByteLexemes, if_pos rfl]
        · omega
        · omega
      · cases hs : startsToken c with
        | false =>
          refine answered_of_rest (fun out => c :: out) ?_ (fun r => .other hq hs)
            (ih _ ?_ rest ?_ rfl)
          · rw [canonicalizeByteLexemes, if_neg hq, if_neg (by rw [hs]; exact Bool.false_ne_true)]
          · omega
          · omega
        | true =>
          have hshort := dropWhile_length_lt rest hs
          rw [List.length_cons] at hshort
          have htoken : ((c :: rest).takeWhile isNumberChar).length ≤ isizeMax := by
            have := (List.takeWhile_sublist (l := c :: rest) isNumberChar).length_le
            rw [List.length_cons] at this
            omega
          have hrest := ih _ hshort ((c :: rest).dropWhile isNumberChar) (by omega) rfl
          by_cases hnum : IsNumber ((c :: rest).takeWhile isNumberChar)
          · obtain ⟨m, hm⟩ := hnum
            have hj := judged_text m (by rw [hm]; exact htoken)
            rw [hm] at hj
            rcases hj with ⟨k, -, -, hk⟩ | ⟨hout, reason, he⟩
            · refine answered_of_rest (fun out => Nat.toDigits 10 k ++ out) ?_ (fun r => .token hs)
                hrest
              rw [canonicalizeByteLexemes, if_neg hq, if_pos hs]
              dsimp only
              rw [hk]
            · refine .inl ⟨_, reason, ?_, c, rest, .refl _, hs, rfl, m, hm, hout⟩
              rw [canonicalizeByteLexemes, if_neg hq, if_pos hs]
              dsimp only
              rw [he]
          · refine answered_of_rest (fun out => (c :: rest).takeWhile isNumberChar ++ out) ?_
              (fun r => .token hs) hrest
            rw [canonicalizeByteLexemes, if_neg hq, if_pos hs]
            dsimp only
            rw [lexemeExactValue_of_not_number hnum]

theorem text_canon {raw out : List Char} {v : Value} (hlen : raw.length ≤ isizeMax)
    (hc : Canon raw out) (h : Json.Text raw v) : ∃ w, Json.Text out w ∧ Respelled v w := by
  obtain ⟨t₁, t₂, hw, hd, hw'⟩ := h
  obtain ⟨o₁, hws, h₁⟩ := canon_ws hw hc
  have hl := hw.length_le
  obtain ⟨o₂, q, hd', h₂, hq⟩ := derives_canon hd (hw'.follow follow_nil) (by omega) h₁
  obtain ⟨o, hws', ho⟩ := canon_ws hw' h₂
  rw [canon_nil.1 ho] at hws'
  cases hq with
  | value hv => exact ⟨_, ⟨o₁, o₂, hws, hd', hws'⟩, hv⟩

theorem text_of_canon {raw out : List Char} {w : Value} (hlen : raw.length ≤ isizeMax)
    (hc : Canon raw out) (h : Json.Text out w) : ∃ v, Json.Text raw v ∧ Respelled v w := by
  obtain ⟨o₁, o₂, hw, hd, hw'⟩ := h
  obtain ⟨t₁, hws, h₁⟩ := ws_of_canon hw hc
  have hl := hws.length_le
  obtain ⟨t₂, p, hd', h₂, hp⟩ := derives_of_canon hd (hw'.follow follow_nil) (by omega) h₁
  obtain ⟨t, hws', ht⟩ := ws_of_canon hw' h₂
  have hend : t = [] := by
    rcases canon_head ht with ⟨h, -⟩ | ⟨_, _, -, -, h⟩ | ⟨_, _, _, -, -, -, -, h⟩ |
      ⟨_, _, _, x, -, hs, -, h, hx⟩
    · exact h
    · cases h
    · cases h
    · obtain ⟨⟨d, ds, rfl, -⟩, -⟩ := replaced_head hs hx
      cases h
  rw [hend] at hws'
  cases hp with
  | value hv => exact ⟨_, ⟨t₁, t₂, hws, hd', hws'⟩, hv⟩

/-- **Byte-valued documents keep their numbers.** A token that is a JSON
number is answered by its exact value when that is an integer of the
domain, and refused otherwise; any other token is left alone. A document is
refused for a number token outside the domain, or rewritten to a text that
is JSON exactly when it is, of the same value with every number in its
plain spelling. -/
theorem byte_lexemes_exact (text : List Char) (hlen : text.length ≤ isizeMax) :
    ((∀ n : Number, n.text = text → Judged n.value (lexemeExactValue text)) ∧
      (¬ IsNumber text → lexemeExactValue text = some (.ok none))) ∧
    ((∃ token reason, canonicalizeByteLexemes text = some (.error (token, reason)) ∧
        Offending text token) ∨
      ∃ out, canonicalizeByteLexemes text = some (.ok out) ∧
        (∀ v, Json.Text text v → ∃ w, Json.Text out w ∧ Respelled v w) ∧
        ∀ w, Json.Text out w → ∃ v, Json.Text text v ∧ Respelled v w) := by
  refine ⟨⟨fun n hn => ?_, lexemeExactValue_of_not_number⟩, ?_⟩
  · rw [← hn] at hlen ⊢
    exact judged_text n hlen
  · rcases answered text hlen with herr | ⟨out, hc⟩
    · exact .inl herr
    · exact .inr ⟨out, hc, fun v => text_canon hlen hc, fun w => text_of_canon hlen hc⟩

set_option maxRecDepth 4000 in
/-- The float spelling of the largest value of the domain. -/
theorem byte_lexemes_exact_largest :
    Judged (2 ^ 53 - 1) (lexemeExactValue "9007199254740991.0".toList) := by
  let n : Number :=
    { int := "9007199254740991".toList
      frac := some ['0']
      int_run := ⟨by decide, List.all_eq_true.1 (by decide)⟩
      int_lead := by decide
      frac_run := fun f hf => by cases hf; exact ⟨by decide, List.all_eq_true.1 (by decide)⟩
      exp_letter := fun _ h => by cases h
      exp_sign := fun _ h => by cases h
      exp_run := fun _ h => by cases h }
  have hval : n.value = 2 ^ 53 - 1 := by
    have hd : decimal n.digits = 90071992547409910 := by decide
    have he : n.exponent - (n.frac.getD []).length = -1 := by decide
    unfold Number.value
    rw [hd, he, show n.neg = false from rfl]
    norm_num
  have h := (byte_lexemes_exact "9007199254740991.0".toList (by decide)).1.1 n rfl
  rw [hval] at h
  exact h

end Protocol

end Tensorplate
