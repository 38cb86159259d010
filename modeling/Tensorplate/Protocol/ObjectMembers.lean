import Tensorplate.Protocol.CanonicalForm
import Tensorplate.Protocol.ValueScan

/-!
# The members of an object are cut where they are written

`Written` is the grammar of the members once more, with the text of every
value in it. On a text the parser accepts, `object_members` returns the
members that are written there, or finds the first key that is repeated.
-/

namespace Tensorplate

namespace Protocol

namespace BundleProfile

open Lib Lib.Json Lib.Utf8
open CanonicalJson (scalars scalars_eq_some)

/-! ## What the parser is relied on for -/

/-- **The parser keeps to the grammar.** A value has a JSON text, with keys
that are Unicode, and what is read as a value can be skipped too; a string
literal by itself is read as the characters it stands for. -/
structure SerdeJson.Correct (P : SerdeJson) : Prop where
  value {text : List Char} : P.isValue text = true → ∃ v, Json.Text text v
  keys {text : List Char} {ms : List (List ℕ × Value)} : P.isValue text = true →
    Json.Text text (.obj ms) → ∀ m ∈ ms, ∃ key, scalars m.1 = some key
  ignoredAny {text : List Char} : P.isValue text = true → P.ignoredAny text = .ok ()
  string {t : List Char} {u : List ℕ} {key : List Char} : Body t u [] →
    scalars (joinSurrogates u) = some key → P.string ('"' :: t) = .ok key

/-! ## Members as they are written -/

/-- A member: its unescaped key, its value and the text of the value. -/
structure Member where
  key : List Char
  value : Value
  text : List Char

/-- The member as the grammar has it. -/
def Member.read (m : Member) : List ℕ × Value := (m.key.map Char.toNat, m.value)

/-- The member as `object_members` returns it. -/
def Member.slice (m : Member) : List Char × List Char := (m.key, m.text)

/-- A member up to what follows its value. -/
structure WrittenMember (t : List Char) (m : Member) (r : List Char) : Prop where
  key : ∃ t₁ t₂ t₃ u, Ws t ('"' :: t₁) ∧ Body t₁ u t₂ ∧ scalars (joinSurrogates u) = some m.key ∧
    Ws t₂ (':' :: t₃) ∧ Ws t₃ (m.text ++ r)
  /-- The text is that of the value, with nothing around it. -/
  value : Derives m.text (.value m.value) []

/-- **The members of an object**, behind its opening bracket and with its
closing one. -/
inductive Written : List Char → List Member → List Char → Prop
  | last {t t₁ r : List Char} {m : Member} : WrittenMember t m t₁ → Ws t₁ ('}' :: r) →
    Written t [m] r
  | member {t t₁ t₂ r : List Char} {m : Member} {ms : List Member} : WrittenMember t m t₁ →
    Ws t₁ (',' :: t₂) → Written t₂ ms r → Written t (m :: ms) r

/-- **A text that is an object with these members.** -/
def WrittenObject (text : List Char) (ms : List Member) : Prop :=
  ∃ t t₁, Ws text ('{' :: t) ∧ Ws t₁ [] ∧
    ((ms = [] ∧ Ws t ('}' :: t₁)) ∨ Written t ms t₁)

theorem derives_rest {x r : List Char} {p : Piece} (h : Derives x p []) : Derives (x ++ r) p r := by
  obtain ⟨y, hy, hall⟩ := h.split
  rw [List.append_nil] at hy
  rw [hy]
  exact hall r

/-- A member of the grammar is written with the text its value is derived
from. -/
theorem writtenMember_exists {t t₁ t₂ t₃ t₄ r : List Char} {u : List ℕ} {v : Value}
    (hkey : ∃ key, scalars (joinSurrogates u) = some key) (hw : Ws t ('"' :: t₁)) (hb : Body t₁ u t₂)
    (hc : Ws t₂ (':' :: t₃)) (hv : Ws t₃ t₄) (hd : Derives t₄ (.value v) r) :
    ∃ m : Member, m.read = (joinSurrogates u, v) ∧ WrittenMember t m r := by
  obtain ⟨key, hkey⟩ := hkey
  obtain ⟨x, rfl, hall⟩ := hd.split
  have hvalue := hall []
  rw [List.append_nil] at hvalue
  refine ⟨⟨key, v, x⟩, ?_, ⟨t₁, t₂, t₃, u, hw, hb, hkey, hc, hv⟩, hvalue⟩
  unfold Member.read
  rw [scalars_eq_some.1 hkey]

theorem written_exists {t r : List Char} {p : Piece} (h : Derives t p r) :
    ∀ ms, p = .members ms → (∀ m ∈ ms, ∃ key, scalars m.1 = some key) →
      ∃ ws : List Member, ws.map Member.read = ms ∧ Written t ws r := by
  induction h with
  | null | true | false | num | str | emptyArr | arr | emptyObj | obj | lastItem | item => nofun
  | lastMember hw hb hc hv hd he =>
    intro ms heq hkeys
    obtain rfl := Piece.members.inj heq
    obtain ⟨m, hread, hm⟩ := writtenMember_exists (hkeys _ List.mem_cons_self) hw hb hc hv hd
    exact ⟨[m], by rw [List.map_singleton, hread], .last hm he⟩
  | member hw hb hc hv hd he _ _ ih =>
    intro ms heq hkeys
    obtain rfl := Piece.members.inj heq
    obtain ⟨hkey, hrest⟩ := List.forall_mem_cons.1 hkeys
    obtain ⟨m, hread, hm⟩ := writtenMember_exists hkey hw hb hc hv hd
    obtain ⟨ws, hws, hwritten⟩ := ih _ rfl hrest
    exact ⟨m :: ws, by rw [List.map_cons, hread, hws], .member hm he hwritten⟩

/-- **The members of an object are written in its text.** -/
theorem writtenObject_exists {text : List Char} {ms : List (List ℕ × Value)}
    (h : Json.Text text (.obj ms)) (hkeys : ∀ m ∈ ms, ∃ key, scalars m.1 = some key) :
    ∃ ws : List Member, ws.map Member.read = ms ∧ WrittenObject text ws := by
  obtain ⟨t, t₁, hw, hd, he⟩ := h
  cases hd with
  | emptyObj hclose => exact ⟨[], rfl, _, t₁, hw, he, .inl ⟨rfl, hclose⟩⟩
  | obj hms =>
    obtain ⟨ws, hws, hwritten⟩ := written_exists hms ms rfl hkeys
    exact ⟨ws, hws, _, t₁, hw, he, .inr hwritten⟩

/-! ## The loop -/

/-- What the loop makes of the members still to come. -/
def gather (field : String) : List Member → List (List Char × List Char) →
    Except BundleProfileError (List (List Char × List Char))
  | [], seen => .ok seen
  | m :: ms, seen =>
    if seen.any fun s => s.1 = m.key then .error (.duplicateKey field m.key)
    else gather field ms (seen ++ [m.slice])

section Loop

variable {P : SerdeJson} {text t r : List Char} {field : String} {i : ℕ}

theorem skipWhitespace_char {c : Char} (h : Ws t (c :: r)) (hc : isWs c = false)
    (hat : At text i t) : At text (skipWhitespace (encode text) i) (c :: r) := by
  refine skipWhitespace_at h ?_ hat
  intro d hd
  rwa [← Option.some.inj hd]

/-- The value of a member starts where the white space behind the colon
ends. -/
theorem valueStart_at {t₁ t₂ : List Char} {v : Value} (hc : Ws t (':' :: t₁)) (hv : Ws t₁ t₂)
    (hd : Derives t₂ (.value v) r) (hat : At text i t) :
    At text (valueStart (encode text) i) t₂ := by
  obtain ⟨c, s, rfl, hws, -⟩ := value_head hd v rfl
  have hcolon := skipWhitespace_char hc (by decide) hat
  exact skipWhitespace_char hv hws (hcolon.next_ascii (by decide))

/-- **One pass of the loop**: the key and the value are cut as they are
written, and the scan goes on behind the value. -/
theorem membersFrom_member (field : String) (hP : P.Correct) {m : Member} (hm : WrittenMember t m r)
    (hr : EndsValue r) (hat : At text i t) (seen : List (List Char × List Char)) :
    ∃ stop, At text stop r ∧
      membersFrom P text field (skipWhitespace (encode text) i) seen =
        if seen.any fun s => s.1 = m.key then some (.error (.duplicateKey field m.key))
        else membersFrom P text field
          (nextMember (encode text) (skipWhitespace (encode text) stop)) (seen ++ [m.slice]) := by
  obtain ⟨⟨t₁, t₂, t₃, u, hw, hb, hkey, hc, hv⟩, hvalue⟩ := hm
  have hd := derives_rest (r := r) hvalue
  have hquote := skipWhitespace_char hw (by decide) hat
  have hend : At text (skipString (encode text) (skipWhitespace (encode text) i)) t₂ :=
    stringEnd_at hb (hquote.next_ascii (by decide))
  have hstart := valueStart_at hc hv hd hend
  have hstop := skipValue_at hd hr hstart
  obtain ⟨x, rfl, hall⟩ := hb.split
  have hbody := hall []
  rw [List.append_nil] at hbody
  have hread := hP.string hbody hkey
  have hcut : Utf8.slice text (skipWhitespace (encode text) i)
      (skipString (encode text) (skipWhitespace (encode text) i)) = some ('"' :: x) :=
    At.slice (x := '"' :: x) hquote hend
  refine ⟨_, hstop, ?_⟩
  rw [membersFrom, dif_pos (hquote.get_ascii (by decide))]
  simp only [hcut, hread, hstart.slice hstop]
  rfl

/-- **The loop gathers the members that are written.** -/
theorem membersFrom_written (hP : P.Correct) {ms : List Member} (h : Written t ms r) :
    ∀ {i : ℕ} (seen : List (List Char × List Char)), At text i t →
      membersFrom P text field (skipWhitespace (encode text) i) seen =
        some (gather field ms seen) := by
  induction h with
  | last hm hclose =>
    intro i seen hat
    obtain ⟨stop, hstop, heq⟩ :=
      membersFrom_member field hP hm (endsValue_ws hclose (.inr rfl)) hat seen
    have hbracket := skipWhitespace_char hclose (by decide) hstop
    have hget := hbracket.get_ascii (by decide)
    rw [heq, gather]
    split_ifs
    · rfl
    · unfold nextMember
      rw [if_neg (by rw [hget]; decide), membersFrom, dif_neg (by rw [hget]; decide)]
      rfl
  | member hm hcomma _ ih =>
    intro i seen hat
    obtain ⟨stop, hstop, heq⟩ :=
      membersFrom_member field hP hm (endsValue_ws hcomma (.inl rfl)) hat seen
    have hnext := skipWhitespace_char hcomma (by decide) hstop
    rw [heq, gather]
    split_ifs
    · rfl
    · unfold nextMember
      rw [if_pos (hnext.get_ascii (by decide))]
      exact ih _ (hnext.next_ascii (by decide))

theorem objectMembers_written (field : String) (hP : P.Correct) {ms : List Member}
    (hany : P.ignoredAny text = .ok ()) (h : WrittenObject text ms) :
    objectMembers P text field = some (gather field ms []) := by
  obtain ⟨t, t₁, hw, -, hms⟩ := h
  have hopen := skipWhitespace_char hw (by decide) (at_zero text)
  have hin := hopen.next_ascii (by decide)
  unfold objectMembers
  rw [hany]
  dsimp only
  rw [if_pos (hopen.get_ascii (by decide))]
  rcases hms with ⟨rfl, hclose⟩ | hwritten
  · have hget := (skipWhitespace_char hclose (by decide) hin).get_ascii (by decide)
    rw [membersFrom, dif_neg (by rw [hget]; decide)]
    rfl
  · exact membersFrom_written hP hwritten [] hin

end Loop

/-! ## Repeated keys -/

/-- **What is gathered**: all the members if their keys differ from each other
and from those seen before, and otherwise the refusal of a repeated one. -/
theorem gather_eq (field : String) (ms : List Member) :
    ∀ {seen : List (List Char × List Char)}, (seen.map Prod.fst).Nodup →
      ((seen.map Prod.fst ++ ms.map Member.key).Nodup →
        gather field ms seen = .ok (seen ++ ms.map Member.slice)) ∧
      (¬(seen.map Prod.fst ++ ms.map Member.key).Nodup →
        ∃ key, gather field ms seen = .error (.duplicateKey field key)) := by
  induction ms with
  | nil =>
    intro seen hseen
    rw [List.map_nil, List.append_nil, List.map_nil, List.append_nil]
    exact ⟨fun _ => rfl, fun hrep => absurd hseen hrep⟩
  | cons m ms ih =>
    intro seen hseen
    rw [gather]
    by_cases hany : seen.any fun s => s.1 = m.key
    · rw [if_pos hany]
      refine ⟨fun hnodup => ?_, fun _ => ⟨m.key, rfl⟩⟩
      simp only [List.any_eq_true, decide_eq_true_eq] at hany
      obtain ⟨s, hs, hkey⟩ := hany
      have hdisj := (List.nodup_append.1 hnodup).2.2
      exact absurd hkey (hdisj _ (List.mem_map_of_mem hs) _ List.mem_cons_self)
    · have hnew : m.key ∉ seen.map Prod.fst := by
        intro hmem
        obtain ⟨s, hs, hkey⟩ := List.mem_map.1 hmem
        exact hany (List.any_eq_true.2 ⟨s, hs, decide_eq_true hkey⟩)
      have hseen' : ((seen ++ [m.slice]).map Prod.fst).Nodup := by
        rw [List.map_append, List.map_singleton]
        exact List.nodup_append.2 ⟨hseen, List.nodup_singleton _, by
          intro a ha b hb heq
          have hkey : a = m.key := heq.trans (List.mem_singleton.1 hb)
          exact hnew (hkey ▸ ha)⟩
      have hkeys : (seen ++ [m.slice]).map Prod.fst ++ ms.map Member.key =
          seen.map Prod.fst ++ (m :: ms).map Member.key := by
        rw [List.map_append, List.append_assoc]
        rfl
      have hslices : seen ++ [m.slice] ++ ms.map Member.slice =
          seen ++ (m :: ms).map Member.slice := by
        rw [List.append_assoc]
        rfl
      have hih := ih hseen'
      rw [hkeys, hslices] at hih
      rw [if_neg hany]
      exact hih

theorem map_toNat_injective : Function.Injective (List.map Char.toNat) := by
  intro a b h
  have ha : scalars (a.map Char.toNat) = some a := scalars_eq_some.2 rfl
  have hb : scalars (a.map Char.toNat) = some b := scalars_eq_some.2 h
  exact Option.some.inj (ha.symm.trans hb)

/-- Keys are equal as they are read when they are equal unescaped. -/
theorem nodup_keys (ws : List Member) :
    ((ws.map Member.read).map Prod.fst).Nodup ↔ (ws.map Member.key).Nodup := by
  have heq : (ws.map Member.read).map Prod.fst = (ws.map Member.key).map (List.map Char.toNat) := by
    rw [List.map_map, List.map_map]
    rfl
  rw [heq, List.nodup_map_iff map_toNat_injective]

/-! ## Other values -/

theorem head_not_object {t r : List Char} {v : Value} (h : Derives t (.value v) r)
    (hv : ∀ ms, v ≠ .obj ms) : ∃ c s, t = c :: s ∧ c.toNat < 128 ∧ isWs c = false ∧ c ≠ '{' := by
  cases h with
  | null | true | false | str | emptyArr | arr =>
    exact ⟨_, _, rfl, by decide, by decide, by decide⟩
  | num n r =>
    obtain ⟨c, s, htext, -⟩ := n.text_cons
    have hc : isNumberChar c = true := by
      refine text_isNumberChar n c ?_
      rw [htext]
      exact List.mem_cons_self
    refine ⟨c, s ++ r, by rw [htext]; rfl, ascii_of_isNumberChar hc, ?_, ?_⟩
    · refine Bool.eq_false_iff.2 fun hws => ?_
      exact Bool.noConfusion (hc.symm.trans (isNumberChar_of_isWs hws))
    · rintro rfl
      exact absurd hc (by decide)
  | emptyObj | obj => exact absurd rfl (hv _)

theorem objectMembers_other {P : SerdeJson} {text : List Char} {v : Value} (field : String)
    (hany : P.ignoredAny text = .ok ()) (h : Json.Text text v) (hv : ∀ ms, v ≠ .obj ms) :
    objectMembers P text field = some (.error (.malformed field "expected a JSON object")) := by
  obtain ⟨t, t₁, hw, hd, -⟩ := h
  obtain ⟨c, s, rfl, hascii, hws, hc⟩ := head_not_object hd hv
  have hget := (skipWhitespace_char hw hws (at_zero text)).get_ascii hascii
  have hne : byte c ≠ byte '{' := fun heq => hc ((byte_inj hascii (by decide)).1 heq)
  unfold objectMembers
  rw [hany]
  dsimp only
  rw [if_neg]
  rw [hget]
  exact fun heq => hne (Option.some.inj heq)

/-! ## The whole text -/

/-- **`object_members` is exact**: on a text that is a JSON value it refuses
what is not an object, refuses an object exactly if two of its keys are equal
unescaped, and else returns the members as they are written, in order. No
slice is off a character boundary. -/
theorem object_members_exact {P : SerdeJson} (hP : P.Correct) {text : List Char}
    (htext : P.isValue text = true) (field : String) :
    objectMembers P text field ≠ none ∧ ∃ v, Json.Text text v ∧
      (objectMembers P text field =
          some (.error (.malformed field "expected a JSON object")) ↔ ∀ ms, v ≠ .obj ms) ∧
      ((∃ key, objectMembers P text field = some (.error (.duplicateKey field key))) ↔
        ∃ ms, v = .obj ms ∧ ¬(ms.map Prod.fst).Nodup) ∧
      ∀ ms, v = .obj ms → (ms.map Prod.fst).Nodup →
        ∃ ws : List Member, ws.map Member.read = ms ∧ WrittenObject text ws ∧
          objectMembers P text field = some (.ok (ws.map Member.slice)) := by
  obtain ⟨v, hv⟩ := hP.value htext
  have hany := hP.ignoredAny htext
  by_cases hobj : ∀ ms, v ≠ .obj ms
  · rw [objectMembers_other field hany hv hobj]
    refine ⟨nofun, v, hv, iff_of_true rfl hobj, iff_of_false nofun ?_, ?_⟩
    · exact fun ⟨ms, hms, _⟩ => hobj ms hms
    · exact fun ms hms => absurd hms (hobj ms)
  · have hex : ∃ ms, v = .obj ms := by
      by_contra hnot
      exact hobj fun ms hms => hnot ⟨ms, hms⟩
    obtain ⟨ms, rfl⟩ := hex
    obtain ⟨ws, hread, hwritten⟩ := writtenObject_exists hv (hP.keys htext hv)
    have hresult := objectMembers_written field hP hany hwritten
    obtain ⟨hok, hrep⟩ := @gather_eq field ws [] List.nodup_nil
    have hkeys := nodup_keys ws
    rw [hread] at hkeys
    rw [List.map_nil, List.nil_append, ← hkeys] at hok hrep
    rw [hresult]
    by_cases hnodup : (ms.map Prod.fst).Nodup
    · rw [hok hnodup]
      refine ⟨nofun, _, hv, iff_of_false nofun hobj, iff_of_false nofun ?_, ?_⟩
      · rintro ⟨ms', hms, hdup⟩
        obtain rfl := Value.obj.inj hms
        exact hdup hnodup
      · rintro ms' hms -
        obtain rfl := Value.obj.inj hms
        exact ⟨ws, hread, hwritten, rfl⟩
    · obtain ⟨key, hkey⟩ := hrep hnodup
      rw [hkey]
      refine ⟨nofun, _, hv, iff_of_false ?_ hobj, iff_of_true ⟨key, rfl⟩ ⟨ms, rfl, hnodup⟩, ?_⟩
      · exact nofun
      · rintro ms' hms hnodup'
        obtain rfl := Value.obj.inj hms
        exact absurd hnodup' hnodup

/-! ## A parser -/

/-- The keys of an object hold no surrogate. -/
def unicodeKeys : Value → Bool
  | .obj ms => ms.all fun m => (scalars m.1).isSome
  | _ => true

/-- A string literal by itself. -/
def readString : List Char → Option (List Char)
  | '"' :: t => match parseBody t with
    | some (u, []) => scalars (joinSurrogates u)
    | _ => none
  | _ => none

/-- The parser of the grammar. -/
def grammarParser : SerdeJson where
  isValue text := (parse text).any unicodeKeys
  ignoredAny text := if (parse text).isSome then .ok () else .error "expected value"
  string text := match readString text with
    | some key => .ok key
    | none => .error "expected value"

theorem grammarParser_value {text : List Char} (h : grammarParser.isValue text = true) :
    ∃ v, Json.Text text v ∧ unicodeKeys v = true := by
  obtain ⟨v, hparse, hkeys⟩ := Option.any_eq_true _ _ |>.1 h
  exact ⟨v, parse_iff.1 hparse, hkeys⟩

theorem grammarParser_correct : grammarParser.Correct where
  value h := by
    obtain ⟨v, hv, -⟩ := grammarParser_value h
    exact ⟨v, hv⟩
  keys h hobj m hm := by
    obtain ⟨v, hv, hkeys⟩ := grammarParser_value h
    have heq := (parse_iff.2 hv).symm.trans (parse_iff.2 hobj)
    obtain rfl := Option.some.inj heq
    exact Option.isSome_iff_exists.1 (List.all_eq_true.1 hkeys m hm)
  ignoredAny h := by
    obtain ⟨v, hv, -⟩ := grammarParser_value h
    show (if (parse _).isSome then Except.ok () else _) = _
    rw [parse_iff.2 hv]
    rfl
  string hbody hkey := by
    show (match readString _ with
      | some key => Except.ok key
      | none => _) = _
    rw [readString, hbody.parse_eq]
    simp only [hkey]

/-- A bracket and a quote in the first key, brackets in a string of its value,
and the second key escaped. -/
def bracketsInStrings : List Char :=
  " \x7b\"a\\\"]\": [\"\x7d\", \x7b\"b\":1\x7d ] ,\"\\u0063\" : -0.5e1 \x7d".toList

theorem bracketsInStrings_members : objectMembers grammarParser bracketsInStrings "profile" =
    some (.ok [("a\"]".toList, "[\"\x7d\", \x7b\"b\":1\x7d ]".toList),
      ("c".toList, "-0.5e1".toList)]) := by
  decide +kernel

theorem object_members_brackets : ∃ ws : List Member, WrittenObject bracketsInStrings ws ∧
    ws.map Member.slice = [("a\"]".toList, "[\"\x7d\", \x7b\"b\":1\x7d ]".toList),
      ("c".toList, "-0.5e1".toList)] := by
  have hvalue : grammarParser.isValue bracketsInStrings = true := by decide +kernel
  obtain ⟨-, v, -, hother, hrepeated, hmembers⟩ :=
    object_members_exact grammarParser_correct hvalue "profile"
  rw [bracketsInStrings_members] at hother hrepeated hmembers
  have hex : ∃ ms, v = .obj ms := by
    by_contra hnot
    have hbad := hother.2 fun ms hms => hnot ⟨ms, hms⟩
    exact absurd hbad nofun
  obtain ⟨ms, hms⟩ := hex
  have hnodup : (ms.map Prod.fst).Nodup := by
    by_contra hdup
    obtain ⟨key, hbad⟩ := hrepeated.2 ⟨ms, hms, hdup⟩
    exact absurd hbad nofun
  obtain ⟨ws, -, hwritten, hresult⟩ := hmembers ms hms hnodup
  exact ⟨ws, hwritten, (Except.ok.inj (Option.some.inj hresult)).symm⟩

end BundleProfile

end Protocol

end Tensorplate
