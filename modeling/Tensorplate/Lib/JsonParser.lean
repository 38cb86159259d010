import Tensorplate.Lib.Json

/-!
# A parser for the grammar

A recursive descent over the characters, with fuel for the nesting. It
reads what the grammar derives and nothing else, so the grammar gives every
text at most one value.
-/

namespace Tensorplate

namespace Lib

namespace Json

/-! ## White space -/

def skipWs (t : List Char) : List Char := t.dropWhile isWs

theorem ws_skipWs (t : List Char) : Ws t (skipWs t) := by
  unfold skipWs
  induction t with
  | nil => exact .nil _
  | cons c t ih =>
    by_cases h : isWs c = true
    · rw [List.dropWhile_cons_of_pos h]
      exact .cons h ih
    · rw [List.dropWhile_cons_of_neg h]
      exact .nil _

/-- Nothing is skipped past a character that is not white space. -/
theorem Ws.skipWs_eq {t r : List Char} (h : Ws t r) (hr : ∀ c ∈ r.head?, isWs c = false) :
    skipWs t = r := by
  unfold skipWs
  induction h with
  | nil r =>
    cases r with
    | nil => rfl
    | cons c r => exact List.dropWhile_cons_of_neg (by rw [hr c rfl]; decide)
  | cons hc _ ih =>
    rw [List.dropWhile_cons_of_pos hc]
    exact ih hr

theorem Ws.skipWs_cons {c : Char} {t r : List Char} (h : Ws t (c :: r)) (hc : isWs c = false) :
    skipWs t = c :: r :=
  h.skipWs_eq fun d hd => by cases hd; exact hc

/-! ## Numbers -/

def isDigits (ds : List Char) : Bool := !ds.isEmpty && ds.all Char.isDigit

theorem isDigits_iff {ds : List Char} : isDigits ds = true ↔ DigitRun ds := by
  unfold isDigits DigitRun
  rw [Bool.and_eq_true, List.all_eq_true, Bool.not_eq_true', List.isEmpty_eq_false_iff]

/-- The sign of an exponent, and what is left of it. -/
def takeSign : List Char → Option Char × List Char
  | [] => (none, [])
  | c :: t => if c = '+' ∨ c = '-' then (some c, t) else (none, c :: t)

/-- The exponent of a number, or nothing. -/
def takeExp : List Char → Option (Option (Char × Option Char × List Char))
  | [] => some none
  | c :: t =>
    if (c = 'e' ∨ c = 'E') ∧ isDigits (takeSign t).2 = true then
      some (some (c, (takeSign t).1, (takeSign t).2))
    else none

/-- The fraction of a number, and what is left of it. -/
def takeFrac : List Char → Option (Option (List Char) × List Char)
  | [] => some (none, [])
  | c :: t =>
    if c = '.' then
      if isDigits (t.takeWhile Char.isDigit) then
        some (some (t.takeWhile Char.isDigit), t.dropWhile Char.isDigit)
      else none
    else some (none, c :: t)

/-- The sign of a number, and what is left of it. -/
def takeMinus : List Char → Bool × List Char
  | [] => (false, [])
  | c :: t => if c = '-' then (true, t) else (false, c :: t)

/-- Is the lexeme a number of the grammar? -/
def isNumber (l : List Char) : Bool :=
  let (_, t) := takeMinus l
  let int := t.takeWhile Char.isDigit
  isDigits int && (int.length ≤ 1 || int.head? != some '0') &&
    match takeFrac (t.dropWhile Char.isDigit) with
    | none => false
    | some (_, t) => (takeExp t).isSome

/-- No digit comes next. -/
def NoDigit (r : List Char) : Prop := ∀ c ∈ r.head?, c.isDigit = false

theorem takeDigits {ds r : List Char} (hd : ∀ c ∈ ds, c.isDigit = true) (hr : NoDigit r) :
    (ds ++ r).takeWhile Char.isDigit = ds ∧ (ds ++ r).dropWhile Char.isDigit = r := by
  have hr' : r.takeWhile Char.isDigit = [] ∧ r.dropWhile Char.isDigit = r := by
    cases r with
    | nil => exact ⟨rfl, rfl⟩
    | cons c cs =>
      have hc := hr c rfl
      exact ⟨List.takeWhile_cons_of_neg (by simp [hc]), List.dropWhile_cons_of_neg (by simp [hc])⟩
  rw [List.takeWhile_append_of_pos hd, List.dropWhile_append_of_pos hd, hr'.1, hr'.2]
  exact ⟨List.append_nil ds, rfl⟩

theorem takeMinus_spec (l : List Char) :
    l = (if (takeMinus l).1 then ['-'] else []) ++ (takeMinus l).2 := by
  cases l with
  | nil => rfl
  | cons c t =>
    rw [takeMinus]
    by_cases h : c = '-'
    · rw [if_pos h, h]
      rfl
    · rw [if_neg h]
      rfl

theorem takeSign_spec (l : List Char) :
    l = (takeSign l).1.toList ++ (takeSign l).2 ∧ ∀ s ∈ (takeSign l).1, s = '+' ∨ s = '-' := by
  cases l with
  | nil => exact ⟨rfl, nofun⟩
  | cons c t =>
    rw [takeSign]
    by_cases h : c = '+' ∨ c = '-'
    · rw [if_pos h]
      exact ⟨rfl, fun s hs => by cases hs; exact h⟩
    · rw [if_neg h]
      exact ⟨rfl, nofun⟩

theorem takeFrac_spec {r r' : List Char} {f : Option (List Char)}
    (h : takeFrac r = some (f, r')) :
    r = f.elim [] ('.' :: ·) ++ r' ∧ ∀ x ∈ f, DigitRun x := by
  cases r with
  | nil => cases h; exact ⟨rfl, nofun⟩
  | cons c t =>
    rw [takeFrac] at h
    split_ifs at h with hc hd
    · cases h
      refine ⟨?_, fun x hx => by cases hx; exact isDigits_iff.1 hd⟩
      rw [hc]
      show '.' :: t = '.' :: (t.takeWhile Char.isDigit ++ t.dropWhile Char.isDigit)
      rw [List.takeWhile_append_dropWhile]
    · cases h
      exact ⟨rfl, nofun⟩

theorem isNumber_sound {l : List Char} (h : isNumber l = true) : IsNumber l := by
  unfold isNumber at h
  dsimp only at h
  have hm := takeMinus_spec l
  generalize (takeMinus l).1 = neg at h hm
  generalize (takeMinus l).2 = t at h hm
  have ht := List.takeWhile_append_dropWhile (p := Char.isDigit) (l := t)
  generalize t.takeWhile Char.isDigit = int at h ht
  generalize t.dropWhile Char.isDigit = r at h ht
  rw [Bool.and_eq_true, Bool.and_eq_true] at h
  obtain ⟨⟨hrun, hlead⟩, hrest⟩ := h
  cases hf : takeFrac r with
  | none => rw [hf] at hrest; cases hrest
  | some fr =>
    obtain ⟨f, r'⟩ := fr
    rw [hf] at hrest
    obtain ⟨hr, hfrun⟩ := takeFrac_spec hf
    obtain ⟨e, he⟩ := Option.isSome_iff_exists.1 hrest
    have hlead' : 1 < int.length → int.head? ≠ some '0' := by
      intro hlen h0
      rw [h0] at hlead
      simp at hlead
      omega
    cases r' with
    | nil =>
      refine ⟨⟨neg, int, f, none, isDigits_iff.1 hrun, hlead', hfrun, nofun, nofun, nofun⟩, ?_⟩
      rw [hm, ← ht, hr]
      cases f <;> rfl
    | cons c t' =>
      rw [takeExp] at he
      split_ifs at he with hc
      obtain ⟨hs, hsign⟩ := takeSign_spec t'
      refine ⟨⟨neg, int, f, some (c, (takeSign t').1, (takeSign t').2), isDigits_iff.1 hrun, hlead',
        hfrun, ?_, ?_, ?_⟩, ?_⟩
      · exact fun e he => by cases he; exact hc.1
      · exact fun e he => by cases he; exact hsign
      · exact fun e he => by cases he; exact isDigits_iff.1 hc.2
      · rw [hm, ← ht, hr]
        show _ ++ (_ ++ (_ ++ (c :: ((takeSign t').1.toList ++ (takeSign t').2)))) = _
        rw [← hs]
        cases f <;> rfl

theorem noDigit_cons {c : Char} (h : c.isDigit = false) (r : List Char) : NoDigit (c :: r) :=
  fun d hd => by cases hd; exact h

theorem takeExp_expText (n : Number) : takeExp n.expText = some n.exp := by
  unfold Number.expText
  cases he : n.exp with
  | none => rfl
  | some e =>
    obtain ⟨letter, sign, ds⟩ := e
    have hrun : DigitRun ds := n.exp_run _ he
    have hsign : takeSign (sign.toList ++ ds) = (sign, ds) := by
      cases sign with
      | none =>
        obtain ⟨d, ds', rfl⟩ := List.exists_cons_of_ne_nil hrun.1
        have hd := hrun.2 d List.mem_cons_self
        refine if_neg ?_
        rintro (rfl | rfl) <;> exact absurd hd (by decide)
      | some s => exact if_pos (n.exp_sign _ he s rfl)
    show (if (letter = 'e' ∨ letter = 'E') ∧ isDigits (takeSign (sign.toList ++ ds)).2 = true
      then _ else _) = _
    rw [hsign, if_pos ⟨n.exp_letter _ he, isDigits_iff.2 hrun⟩]

theorem expText_head (n : Number) : ∀ c ∈ n.expText.head?, c = 'e' ∨ c = 'E' := by
  unfold Number.expText
  cases he : n.exp with
  | none => nofun
  | some e =>
    intro c hc
    cases hc
    exact n.exp_letter _ he

theorem noDigit_expText (n : Number) : NoDigit n.expText := by
  intro c hc
  rcases expText_head n c hc with rfl | rfl <;> decide

theorem takeFrac_fracText (n : Number) :
    takeFrac (n.fracText ++ n.expText) = some (n.frac, n.expText) := by
  unfold Number.fracText
  cases hf : n.frac with
  | none =>
    rw [List.nil_append]
    cases he : n.expText with
    | nil => rfl
    | cons c t =>
      refine if_neg ?_
      rintro rfl
      rcases expText_head n '.' (by rw [he]; rfl) with h | h <;> cases h
  | some f =>
    have hrun : DigitRun f := n.frac_run f hf
    obtain ⟨h₁, h₂⟩ := takeDigits hrun.2 (noDigit_expText n)
    rw [List.cons_append, takeFrac, if_pos rfl, h₁, h₂, if_pos (isDigits_iff.2 hrun)]

theorem noDigit_fracText (n : Number) : NoDigit (n.fracText ++ n.expText) := by
  unfold Number.fracText
  cases n.frac with
  | none => exact noDigit_expText n
  | some f => exact noDigit_cons (by decide) _

theorem takeMinus_text (n : Number) :
    takeMinus n.text = (n.neg, n.int ++ (n.fracText ++ n.expText)) := by
  unfold Number.text Number.signText
  cases n.neg with
  | true => rfl
  | false =>
    obtain ⟨d, ds, hint⟩ := List.exists_cons_of_ne_nil n.int_run.1
    have hd : d.isDigit = true := n.int_run.2 d (by rw [hint]; exact List.mem_cons_self)
    rw [hint]
    refine if_neg ?_
    rintro rfl
    exact absurd hd (by decide)

theorem isNumber_text (n : Number) : isNumber n.text = true := by
  unfold isNumber
  rw [takeMinus_text]
  dsimp only
  obtain ⟨h₁, h₂⟩ := takeDigits n.int_run.2 (noDigit_fracText n)
  rw [h₁, h₂, takeFrac_fracText, isDigits_iff.2 n.int_run]
  dsimp only
  rw [takeExp_expText, Option.isSome_some, Bool.and_true, Bool.true_and, Bool.or_eq_true]
  by_cases hlen : n.int.length ≤ 1
  · exact .inl (decide_eq_true hlen)
  · refine .inr ?_
    rw [bne_iff_ne]
    exact n.int_lead (by omega)

/-! ## Strings -/

/-- The code units of a string up to its closing quote. -/
def parseBody : List Char → Option (List ℕ × List Char)
  | [] => none
  | c :: t =>
    if c = '"' then some ([], t)
    else if c = '\\' then
      match t with
      | [] => none
      | e :: t =>
        if e = 'u' then
          match t with
          | x :: y :: z :: w :: t =>
            (hexUnit x y z w).bind fun n => (parseBody t).map fun p => (n :: p.1, p.2)
          | _ => none
        else (shortEscape e).bind fun n => (parseBody t).map fun p => (n :: p.1, p.2)
    else if 0x20 ≤ c.toNat then (parseBody t).map fun p => (c.toNat :: p.1, p.2)
    else none

theorem parseBody_sound {t : List Char} : ∀ {u : List ℕ} {r : List Char},
    parseBody t = some (u, r) → Body t u r := by
  -- An escape takes up to six characters, so the induction is on the length.
  induction hlen : t.length using Nat.strong_induction_on generalizing t with
  | _ k ih =>
    subst hlen
    intro u r h
    rw [parseBody.eq_def] at h
    rcases t with - | ⟨c, t⟩
    · cases h
    dsimp only at h
    by_cases hq : c = '"'
    · subst hq
      rw [if_pos rfl] at h
      cases h
      exact .close _
    rw [if_neg hq] at h
    by_cases hb : c = '\\'
    · subst hb
      rw [if_pos rfl] at h
      rcases t with - | ⟨e, t⟩
      · cases h
      dsimp only at h
      by_cases hu : e = 'u'
      · subst hu
        rw [if_pos rfl] at h
        rcases t with - | ⟨x, - | ⟨y, - | ⟨z, - | ⟨w, t⟩⟩⟩⟩
        case cons.cons.cons.cons =>
          obtain ⟨n, hn, h⟩ := Option.bind_eq_some_iff.1 h
          obtain ⟨p, hp, heq⟩ := Option.map_eq_some_iff.1 h
          cases heq
          exact .hex hn (ih _ (by simp only [List.length_cons]; omega) rfl hp)
        all_goals cases h
      · rw [if_neg hu] at h
        obtain ⟨n, hn, h⟩ := Option.bind_eq_some_iff.1 h
        obtain ⟨p, hp, heq⟩ := Option.map_eq_some_iff.1 h
        cases heq
        exact .short hn (ih _ (by simp only [List.length_cons]; omega) rfl hp)
    · rw [if_neg hb] at h
      by_cases hc : 0x20 ≤ c.toNat
      · rw [if_pos hc] at h
        obtain ⟨p, hp, heq⟩ := Option.map_eq_some_iff.1 h
        cases heq
        exact .plain hq hb hc (ih _ (by simp only [List.length_cons]; omega) rfl hp)
      · rw [if_neg hc] at h
        cases h

theorem Body.parse_eq {t r : List Char} {u : List ℕ} (h : Body t u r) :
    parseBody t = some (u, r) := by
  induction h with
  | close r =>
    rw [parseBody.eq_def]
    exact if_pos rfl
  | plain hq hb hc _ ih =>
    rw [parseBody.eq_def]
    dsimp only
    rw [if_neg hq, if_neg hb, if_pos hc, ih]
    rfl
  | @short c n t r u hc _ ih =>
    have hu : c ≠ 'u' := by
      rintro rfl
      cases hc
    rw [parseBody.eq_def]
    dsimp only
    rw [if_neg (by decide), if_pos rfl, if_neg hu, hc, ih]
    rfl
  | @hex a b c d n t r u hn _ ih =>
    show ((hexUnit a b c d).bind fun n => (parseBody t).map fun p => (n :: p.1, p.2)) = _
    rw [hn, ih]
    rfl

/-! ## Values -/

/-- What is left of a text behind a word. -/
def stripWord : List Char → List Char → Option (List Char)
  | [], t => some t
  | _ :: _, [] => none
  | c :: w, d :: t => if c = d then stripWord w t else none

theorem stripWord_iff {w t r : List Char} : stripWord w t = some r ↔ t = w ++ r := by
  induction w generalizing t with
  | nil => rw [stripWord, Option.some_inj, List.nil_append]
  | cons c w ih =>
    cases t with
    | nil => exact ⟨nofun, nofun⟩
    | cons d t =>
      rw [stripWord]
      by_cases h : c = d
      · rw [if_pos h, ih, h, List.cons_append, List.cons.injEq]
        exact ⟨fun h => ⟨rfl, h⟩, fun h => h.2⟩
      · rw [if_neg h]
        exact ⟨nofun, fun heq => absurd (List.cons.inj heq).1.symm h⟩

theorem stripWord_self {c : Char} {t : List Char} : stripWord [c] (c :: t) = some t :=
  stripWord_iff.2 rfl

def parseNumber (t : List Char) : Option (Value × List Char) :=
  if isNumber (t.takeWhile isNumberChar) then
    some (.num (t.takeWhile isNumberChar), t.dropWhile isNumberChar)
  else none

mutual

def parseValue : ℕ → List Char → Option (Value × List Char)
  | 0, _ => none
  | _ + 1, [] => none
  | n + 1, c :: t =>
    if c = '"' then (parseBody t).map fun p => (.str (joinSurrogates p.1), p.2)
    else if c = '[' then
      if (skipWs t).head? = some ']' then some (.arr [], (skipWs t).tail)
      else (parseItems n t).map fun p => (.arr p.1, p.2)
    else if c = '\x7b' then
      if (skipWs t).head? = some '\x7d' then some (.obj [], (skipWs t).tail)
      else (parseMembers n t).map fun p => (.obj p.1, p.2)
    else if c = 'n' then (stripWord ['u', 'l', 'l'] t).map fun r => (.null, r)
    else if c = 't' then (stripWord ['r', 'u', 'e'] t).map fun r => (.bool true, r)
    else if c = 'f' then (stripWord ['a', 'l', 's', 'e'] t).map fun r => (.bool false, r)
    else parseNumber (c :: t)

def parseItems : ℕ → List Char → Option (List Value × List Char)
  | 0, _ => none
  | n + 1, t =>
    (parseValue n (skipWs t)).bind fun p =>
      match skipWs p.2 with
      | [] => none
      | c :: r =>
        if c = ']' then some ([p.1], r)
        else if c = ',' then (parseItems n r).map fun q => (p.1 :: q.1, q.2)
        else none

def parseMembers : ℕ → List Char → Option (List (List ℕ × Value) × List Char)
  | 0, _ => none
  | n + 1, t =>
    (stripWord ['"'] (skipWs t)).bind fun t =>
      (parseBody t).bind fun k =>
        (stripWord [':'] (skipWs k.2)).bind fun t =>
          (parseValue n (skipWs t)).bind fun p =>
            match skipWs p.2 with
            | [] => none
            | c :: r =>
              if c = '\x7d' then some ([(joinSurrogates k.1, p.1)], r)
              else if c = ',' then
                (parseMembers n r).map fun q => ((joinSurrogates k.1, p.1) :: q.1, q.2)
              else none

end

def parse (t : List Char) : Option Value :=
  (parseValue (2 * t.length) (skipWs t)).bind fun p =>
    if skipWs p.2 = [] then some p.1 else none

/-! ## What is read is derived -/

theorem parseNumber_sound {t r : List Char} {v : Value} (h : parseNumber t = some (v, r)) :
    Derives t (.value v) r := by
  unfold parseNumber at h
  split_ifs at h with hn
  cases h
  obtain ⟨n, hn⟩ := isNumber_sound hn
  have ht := List.takeWhile_append_dropWhile (p := isNumberChar) (l := t)
  rw [← hn] at ht ⊢
  nth_rewrite 1 [← ht]
  exact .num n _

section

variable {n : ℕ}
  (hv : ∀ {t : List Char} {v : Value} {r : List Char}, parseValue n t = some (v, r) →
    Derives t (.value v) r)
  (hi : ∀ {t : List Char} {vs : List Value} {r : List Char}, parseItems n t = some (vs, r) →
    Derives t (.items vs) r)
  (hm : ∀ {t : List Char} {ms : List (List ℕ × Value)} {r : List Char},
    parseMembers n t = some (ms, r) → Derives t (.members ms) r)

include hi hm in
theorem parseValue_step {t r : List Char} {v : Value} (h : parseValue (n + 1) t = some (v, r)) :
    Derives t (.value v) r := by
  cases t with
  | nil => cases h
  | cons c t =>
    rw [parseValue] at h
    split_ifs at h with h1 h2 h3 h4 h5 h6 h7 h8
    · obtain ⟨p, hp, heq⟩ := Option.map_eq_some_iff.1 h
      cases heq
      rw [h1]
      exact .str (parseBody_sound hp)
    · cases h
      rw [h2]
      refine .emptyArr ?_
      rw [← List.eq_cons_of_mem_head? h3]
      exact ws_skipWs t
    · obtain ⟨p, hp, heq⟩ := Option.map_eq_some_iff.1 h
      cases heq
      rw [h2]
      exact .arr (hi hp)
    · cases h
      rw [h4]
      refine .emptyObj ?_
      rw [← List.eq_cons_of_mem_head? h5]
      exact ws_skipWs t
    · obtain ⟨p, hp, heq⟩ := Option.map_eq_some_iff.1 h
      cases heq
      rw [h4]
      exact .obj (hm hp)
    · obtain ⟨r', hr, heq⟩ := Option.map_eq_some_iff.1 h
      cases heq
      rw [h6, stripWord_iff.1 hr]
      exact .null _
    · obtain ⟨r', hr, heq⟩ := Option.map_eq_some_iff.1 h
      cases heq
      rw [h7, stripWord_iff.1 hr]
      exact .true _
    · obtain ⟨r', hr, heq⟩ := Option.map_eq_some_iff.1 h
      cases heq
      rw [h8, stripWord_iff.1 hr]
      exact .false _
    · exact parseNumber_sound h

include hv hi in
theorem parseItems_step {t r : List Char} {vs : List Value}
    (h : parseItems (n + 1) t = some (vs, r)) : Derives t (.items vs) r := by
  rw [parseItems] at h
  obtain ⟨p, hp, h⟩ := Option.bind_eq_some_iff.1 h
  have hw := ws_skipWs p.2
  cases hs : skipWs p.2 with
  | nil => rw [hs] at h; cases h
  | cons c r' =>
    rw [hs] at h hw
    dsimp only at h
    split_ifs at h with h1 h2
    · cases h
      exact .lastItem (ws_skipWs t) (hv hp) (h1 ▸ hw)
    · obtain ⟨q, hq, heq⟩ := Option.map_eq_some_iff.1 h
      cases heq
      exact .item (ws_skipWs t) (hv hp) (h2 ▸ hw) (hi hq)

include hv hm in
theorem parseMembers_step {t r : List Char} {ms : List (List ℕ × Value)}
    (h : parseMembers (n + 1) t = some (ms, r)) : Derives t (.members ms) r := by
  rw [parseMembers] at h
  obtain ⟨t₁, ht₁, h⟩ := Option.bind_eq_some_iff.1 h
  obtain ⟨k, hk, h⟩ := Option.bind_eq_some_iff.1 h
  obtain ⟨t₃, ht₃, h⟩ := Option.bind_eq_some_iff.1 h
  obtain ⟨p, hp, h⟩ := Option.bind_eq_some_iff.1 h
  have hquote : Ws t ('"' :: t₁) := by
    have := ws_skipWs t
    rwa [stripWord_iff.1 ht₁] at this
  have hcolon : Ws k.2 (':' :: t₃) := by
    have := ws_skipWs k.2
    rwa [stripWord_iff.1 ht₃] at this
  have hw := ws_skipWs p.2
  cases hs : skipWs p.2 with
  | nil => rw [hs] at h; cases h
  | cons c r' =>
    rw [hs] at h hw
    dsimp only at h
    split_ifs at h with h1 h2
    · cases h
      exact .lastMember hquote (parseBody_sound hk) hcolon (ws_skipWs t₃) (hv hp) (h1 ▸ hw)
    · obtain ⟨q, hq, heq⟩ := Option.map_eq_some_iff.1 h
      cases heq
      exact .member hquote (parseBody_sound hk) hcolon (ws_skipWs t₃) (hv hp) (h2 ▸ hw) (hm hq)

end

theorem parse_sound_at (n : ℕ) :
    (∀ {t : List Char} {v : Value} {r : List Char}, parseValue n t = some (v, r) →
      Derives t (.value v) r) ∧
    (∀ {t : List Char} {vs : List Value} {r : List Char}, parseItems n t = some (vs, r) →
      Derives t (.items vs) r) ∧
    ∀ {t : List Char} {ms : List (List ℕ × Value)} {r : List Char},
      parseMembers n t = some (ms, r) → Derives t (.members ms) r := by
  induction n with
  | zero => exact ⟨nofun, nofun, nofun⟩
  | succ n ih =>
    obtain ⟨hv, hi, hm⟩ := ih
    exact ⟨parseValue_step hi hm, parseItems_step hv hi, parseMembers_step hv hm⟩

/-! ## What is derived is read -/

/-- A value starts with neither white space nor a closing bracket. -/
theorem value_head {t r : List Char} {p : Piece} (h : Derives t p r) :
    ∀ v, p = .value v → ∃ c s, t = c :: s ∧ isWs c = false ∧ c ≠ ']' := by
  cases h with
  | null | true | false | str | emptyArr | arr | emptyObj | obj =>
    exact fun v _ => ⟨_, _, rfl, by decide, by decide⟩
  | num n r =>
    intro v _
    obtain ⟨c, s, htext, hc⟩ := n.text_cons
    rw [htext]
    refine ⟨c, s ++ r, rfl, ?_, ?_⟩
    · cases hws : isWs c with
      | false => rfl
      | true =>
        have hnum := text_isNumberChar n c (by rw [htext]; exact List.mem_cons_self)
        cases hnum.symm.trans (isNumberChar_of_isWs hws)
    · rintro rfl
      rcases hc with hc | hc <;> exact absurd hc (by decide)
  | lastItem | item | lastMember | member => nofun

/-- What the parser makes of a piece. -/
def Parsed (n : ℕ) (t : List Char) : Piece → List Char → Prop
  | .value v, r => parseValue n t = some (v, r)
  | .items vs, r => parseItems n t = some (vs, r)
  | .members ms, r => parseMembers n t = some (ms, r)

/-- The fuel for a piece. -/
def need (t : List Char) : Piece → ℕ
  | .value _ => 2 * t.length
  | _ => 2 * t.length + 1

theorem parseNumber_text (n : Number) {r : List Char} (hr : Follow r) :
    parseNumber (n.text ++ r) = some (.num n.text, r) := by
  obtain ⟨h₁, h₂⟩ := takeWhile_append_follow (text_isNumberChar n) hr
  unfold parseNumber
  rw [h₁, h₂, if_pos (isNumber_text n)]

/-- A number is read as one: none of the other values starts so. -/
theorem parseValue_number (n : Number) {r : List Char} (hr : Follow r) (k : ℕ) :
    parseValue (k + 1) (n.text ++ r) = some (.num n.text, r) := by
  rw [← parseNumber_text n hr]
  obtain ⟨c, s, htext, hc⟩ := n.text_cons
  have hne : ∀ d : Char, d ≠ '-' → d.isDigit = false → c ≠ d := by
    rintro d hm hd rfl
    rcases hc with hc | hc
    · exact hm hc
    · cases hc.symm.trans hd
  rw [htext, List.cons_append, parseValue, if_neg (hne _ (by decide) (by decide)),
    if_neg (hne _ (by decide) (by decide)), if_neg (hne _ (by decide) (by decide)),
    if_neg (hne _ (by decide) (by decide)), if_neg (hne _ (by decide) (by decide)),
    if_neg (hne _ (by decide) (by decide))]

theorem skipWs_value {t t₁ r : List Char} {v : Value} (hw : Ws t t₁)
    (hd : Derives t₁ (.value v) r) : skipWs t = t₁ ∧ t₁.head? ≠ some ']' := by
  obtain ⟨c, s, rfl, hc, hb⟩ := value_head hd v rfl
  refine ⟨hw.skipWs_cons hc, fun h => hb ?_⟩
  exact Option.some.inj h

/-- The items of an array that is not empty do not close it at once. -/
theorem items_open {t r : List Char} {vs : List Value} (h : Derives t (.items vs) r) :
    (skipWs t).head? ≠ some ']' := by
  cases h with
  | lastItem hw hd _ | item hw hd _ _ =>
    obtain ⟨heq, hb⟩ := skipWs_value hw hd
    rw [heq]
    exact hb

theorem members_open {t r : List Char} {ms : List (List ℕ × Value)}
    (h : Derives t (.members ms) r) : (skipWs t).head? ≠ some '\x7d' := by
  cases h with
  | lastMember hw | member hw =>
    rw [hw.skipWs_cons (by decide)]
    exact fun h => absurd (Option.some.inj h) (by decide)

theorem Derives.parsed {t r : List Char} {p : Piece} (h : Derives t p r) :
    FollowsPiece p r → ∀ n, need t p ≤ n → Parsed n t p r := by
  induction h with
  | null r | true r | false r =>
    intro _ n hn
    obtain ⟨k, rfl⟩ : ∃ k, n = k + 1 := ⟨n - 1, by simp only [need, List.length_cons] at hn; omega⟩
    rfl
  | num m r =>
    intro hr n hn
    obtain ⟨k, rfl⟩ : ∃ k, n = k + 1 := by
      obtain ⟨c, s, htext, -⟩ := m.text_cons
      refine ⟨n - 1, ?_⟩
      rw [htext] at hn
      simp only [need, List.cons_append, List.length_cons] at hn
      omega
    exact parseValue_number m hr k
  | str hb =>
    intro _ n hn
    obtain ⟨k, rfl⟩ : ∃ k, n = k + 1 := ⟨n - 1, by simp only [need, List.length_cons] at hn; omega⟩
    show parseValue (k + 1) _ = _
    rw [parseValue, if_pos rfl, hb.parse_eq]
    rfl
  | emptyArr hw =>
    intro _ n hn
    obtain ⟨k, rfl⟩ : ∃ k, n = k + 1 := ⟨n - 1, by simp only [need, List.length_cons] at hn; omega⟩
    show parseValue (k + 1) _ = _
    rw [parseValue, if_neg (by decide), if_pos rfl, hw.skipWs_cons (by decide)]
    rfl
  | @arr t r vs hd ih =>
    intro _ n hn
    obtain ⟨k, rfl⟩ : ∃ k, n = k + 1 := ⟨n - 1, by simp only [need, List.length_cons] at hn; omega⟩
    have hk : parseItems k t = some (vs, r) :=
      ih trivial k (by simp only [need, List.length_cons] at hn ⊢; omega)
    show parseValue (k + 1) _ = _
    rw [parseValue, if_neg (by decide), if_pos rfl, if_neg (items_open hd), hk]
    rfl
  | emptyObj hw =>
    intro _ n hn
    obtain ⟨k, rfl⟩ : ∃ k, n = k + 1 := ⟨n - 1, by simp only [need, List.length_cons] at hn; omega⟩
    show parseValue (k + 1) _ = _
    rw [parseValue, if_neg (by decide), if_neg (by decide), if_pos rfl, hw.skipWs_cons (by decide)]
    rfl
  | @obj t r ms hd ih =>
    intro _ n hn
    obtain ⟨k, rfl⟩ : ∃ k, n = k + 1 := ⟨n - 1, by simp only [need, List.length_cons] at hn; omega⟩
    have hk : parseMembers k t = some (ms, r) :=
      ih trivial k (by simp only [need, List.length_cons] at hn ⊢; omega)
    show parseValue (k + 1) _ = _
    rw [parseValue, if_neg (by decide), if_neg (by decide), if_pos rfl, if_neg (members_open hd), hk]
    rfl
  | @lastItem t t₁ t₂ r v hw hd hc ih =>
    intro _ n hn
    obtain ⟨k, rfl⟩ : ∃ k, n = k + 1 := ⟨n - 1, by simp only [need] at hn; omega⟩
    have hlen := hw.length_le
    have hv : parseValue k t₁ = some (v, t₂) :=
      ih (hc.follow (follow_cons (by decide) r)) k (by simp only [need] at hn ⊢; omega)
    show parseItems (k + 1) t = _
    rw [parseItems, (skipWs_value hw hd).1, hv, Option.bind_some, hc.skipWs_cons (by decide)]
    rfl
  | @item t t₁ t₂ t₃ r v vs hw hd hc hds ih ihs =>
    intro _ n hn
    obtain ⟨k, rfl⟩ : ∃ k, n = k + 1 := ⟨n - 1, by simp only [need] at hn; omega⟩
    have hlen := hw.length_le
    have hlen₂ := hd.length_le
    have hlen₃ := hc.length_le
    rw [List.length_cons] at hlen₃
    have hv : parseValue k t₁ = some (v, t₂) :=
      ih (hc.follow (follow_cons (by decide) t₃)) k (by simp only [need] at hn ⊢; omega)
    have hvs : parseItems k t₃ = some (vs, r) :=
      ihs trivial k (by simp only [need] at hn ⊢; omega)
    show parseItems (k + 1) t = _
    rw [parseItems, (skipWs_value hw hd).1, hv, Option.bind_some, hc.skipWs_cons (by decide)]
    dsimp only
    rw [if_neg (by decide), if_pos rfl, hvs]
    rfl
  | @lastMember t t₁ t₂ t₃ t₄ t₅ r key v hq hb hcol hw hd hc ih =>
    intro _ n hn
    obtain ⟨k, rfl⟩ : ∃ k, n = k + 1 := ⟨n - 1, by simp only [need] at hn; omega⟩
    have hlen := hq.length_le
    have hlen₂ := hb.length_le
    have hlen₃ := hcol.length_le
    have hlen₄ := hw.length_le
    rw [List.length_cons] at hlen hlen₃
    have hv : parseValue k t₄ = some (v, t₅) :=
      ih (hc.follow (follow_cons (by decide) r)) k (by simp only [need] at hn ⊢; omega)
    show parseMembers (k + 1) t = _
    rw [parseMembers, hq.skipWs_cons (by decide), stripWord_self, Option.bind_some,
      hb.parse_eq, Option.bind_some, hcol.skipWs_cons (by decide), stripWord_self,
      Option.bind_some, (skipWs_value hw hd).1, hv, Option.bind_some, hc.skipWs_cons (by decide)]
    rfl
  | @member t t₁ t₂ t₃ t₄ t₅ t₆ r key v ms hq hb hcol hw hd hc hds ih ihs =>
    intro _ n hn
    obtain ⟨k, rfl⟩ : ∃ k, n = k + 1 := ⟨n - 1, by simp only [need] at hn; omega⟩
    have hlen := hq.length_le
    have hlen₂ := hb.length_le
    have hlen₃ := hcol.length_le
    have hlen₄ := hw.length_le
    have hlen₅ := hd.length_le
    have hlen₆ := hc.length_le
    rw [List.length_cons] at hlen hlen₃ hlen₆
    have hv : parseValue k t₄ = some (v, t₅) :=
      ih (hc.follow (follow_cons (by decide) t₆)) k (by simp only [need] at hn ⊢; omega)
    have hms : parseMembers k t₆ = some (ms, r) :=
      ihs trivial k (by simp only [need] at hn ⊢; omega)
    show parseMembers (k + 1) t = _
    rw [parseMembers, hq.skipWs_cons (by decide), stripWord_self, Option.bind_some,
      hb.parse_eq, Option.bind_some, hcol.skipWs_cons (by decide), stripWord_self,
      Option.bind_some, (skipWs_value hw hd).1, hv, Option.bind_some, hc.skipWs_cons (by decide)]
    dsimp only
    rw [if_neg (by decide), if_pos rfl, hms]
    rfl

/-- **The parser** reads the texts of the grammar, and reads them right. -/
theorem parse_iff {t : List Char} {v : Value} : parse t = some v ↔ Text t v := by
  unfold parse
  constructor
  · intro h
    obtain ⟨p, hp, h⟩ := Option.bind_eq_some_iff.1 h
    split_ifs at h with hs
    cases h
    have hw := ws_skipWs p.2
    rw [hs] at hw
    exact ⟨skipWs t, p.2, ws_skipWs t, (parse_sound_at _).1 hp, hw⟩
  · rintro ⟨t₁, t₂, hw, hd, he⟩
    have hlen := hw.length_le
    have hv : parseValue (2 * t.length) t₁ = some (v, t₂) :=
      hd.parsed (he.follow follow_nil) _ (by simp only [need]; omega)
    rw [(skipWs_value hw hd).1, hv, Option.bind_some, he.skipWs_eq nofun, if_pos rfl]

end Json

end Lib

end Tensorplate
