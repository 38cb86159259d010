import Mathlib
import Tensorplate.Lib.Pointwise
import Tensorplate.Protocol.Model.CanonicalJson

/-!
# Canonical forms

What the canonical bytes are for: a `Form` is a value with no trace of its
spelling, its objects in the order of their keys. The text of a form is a
JSON text, and what a parser reads from it has that form again.
-/

namespace Tensorplate

namespace Protocol

namespace CanonicalJson

open Lib Lib.Json

/-! ## The order of the keys -/

theorem utf8_injective {a b : List Char} (h : utf8 a = utf8 b) : a = b := by
  apply String.ofList_injective
  have hb : (String.ofList a).toByteArray = (String.ofList b).toByteArray := by
    show List.utf8Encode a = List.utf8Encode b
    unfold List.utf8Encode
    exact congrArg _ h
  exact String.toByteArray_inj.1 hb

theorem keyLe_total (a b : List Char) : (keyLe a b || keyLe b a) = true := by
  unfold keyLe
  rw [Bool.or_eq_true, decide_eq_true_eq, decide_eq_true_eq]
  exact le_total _ _

theorem keyLe_trans {a b c : List Char} (h₁ : keyLe a b = true) (h₂ : keyLe b c = true) :
    keyLe a c = true := by
  unfold keyLe at *
  rw [decide_eq_true_eq] at *
  exact le_trans h₁ h₂

theorem keyLe_antisymm {a b : List Char} (h₁ : keyLe a b = true) (h₂ : keyLe b a = true) :
    a = b := by
  unfold keyLe at *
  rw [decide_eq_true_eq] at *
  have hmap := le_antisymm h₁ h₂
  exact utf8_injective (List.map_injective_iff.2 (fun _ _ => UInt8.toNat_inj.1) hmap)

section

variable {α β : Type}

/-- The members stand in the order of their keys. -/
def Sorted (ms : List (List Char × α)) : Prop := ms.Pairwise fun a b => keyLe a.1 b.1 = true

theorem sorted_sortByKey (ms : List (List Char × α)) : Sorted (sortByKey ms) := by
  refine List.pairwise_mergeSort ?_ ?_ ms
  · exact fun _ _ _ h₁ h₂ => keyLe_trans h₁ h₂
  · exact fun a b => keyLe_total a.1 b.1

theorem Sorted.keys {ms : List (List Char × α)} (h : Sorted ms) :
    (ms.map Prod.fst).Pairwise fun a b => keyLe a b = true :=
  List.pairwise_map.2 h

theorem sortByKey_perm (ms : List (List Char × α)) : (sortByKey ms).Perm ms :=
  List.mergeSort_perm ms _

theorem sortByKey_of_sorted {ms : List (List Char × α)} (h : Sorted ms) : sortByKey ms = ms :=
  List.mergeSort_of_pairwise h

/-- Sorting does not look at the values. -/
theorem map_sortByKey (f : α → β) (ms : List (List Char × α)) :
    (sortByKey ms).map (fun m => (m.1, f m.2)) = sortByKey (ms.map fun m => (m.1, f m.2)) :=
  List.map_mergeSort fun _ _ _ _ => rfl

theorem nodup_keys_perm {ms ns : List (List Char × α)} (h : ms.Perm ns)
    (hd : (ns.map Prod.fst).Nodup) : (ms.map Prod.fst).Nodup :=
  ((h.map Prod.fst).nodup_iff).2 hd

theorem eq_of_mem_key {ms : List (List Char × α)} (hd : (ms.map Prod.fst).Nodup) {k : List Char}
    {x y : α} (hx : (k, x) ∈ ms) (hy : (k, y) ∈ ms) : x = y := by
  have := List.inj_on_of_nodup_map hd hx hy rfl
  exact (Prod.mk.inj this).2

/-- Members with distinct keys have one order. -/
theorem eq_of_sorted_perm {ms ns : List (List Char × α)} (h : ms.Perm ns) (hm : Sorted ms)
    (hn : Sorted ns) (hd : (ns.map Prod.fst).Nodup) : ms = ns := by
  refine List.Perm.eq_of_pairwise ?_ hm hn h
  intro a b ha hb h₁ h₂
  have hk : a.1 = b.1 := keyLe_antisymm h₁ h₂
  obtain ⟨k, x⟩ := a
  obtain ⟨k', y⟩ := b
  cases hk
  rw [eq_of_mem_key hd (h.subset ha) hb]

theorem sortByKey_congr {ms ns : List (List Char × α)} (h : ms.Perm ns)
    (hd : (ns.map Prod.fst).Nodup) : sortByKey ms = sortByKey ns := by
  refine eq_of_sorted_perm ?_ (sorted_sortByKey ms) (sorted_sortByKey ns) ?_
  · exact (sortByKey_perm ms).trans (h.trans (sortByKey_perm ns).symm)
  · exact nodup_keys_perm (sortByKey_perm ns) hd

/-- Between sorted keys a repetition stands side by side. -/
theorem firstRepeat_none_iff {ks : List (List Char)}
    (h : ks.Pairwise fun a b => keyLe a b = true) : firstRepeat ks = none ↔ ks.Nodup := by
  induction ks with
  | nil => exact ⟨fun _ => List.nodup_nil, fun _ => rfl⟩
  | cons a ks ih =>
    obtain ⟨ha, hks⟩ := List.pairwise_cons.1 h
    cases ks with
    | nil => exact ⟨fun _ => List.nodup_singleton a, fun _ => rfl⟩
    | cons b rest =>
      rw [firstRepeat]
      by_cases hab : a = b
      · rw [if_pos hab]
        refine ⟨nofun, fun hn => ?_⟩
        rw [hab] at hn
        exact absurd (List.mem_cons_self ..) (List.nodup_cons.1 hn).1
      · rw [if_neg hab, ih hks]
        refine ⟨fun hn => List.nodup_cons.2 ⟨fun hmem => ?_, hn⟩, fun hn => hn.of_cons⟩
        -- a later copy of `a` would force everything between to be `a`
        rcases List.mem_cons.1 hmem with h | hmem
        · exact hab h
        · have hba := (List.pairwise_cons.1 hks).1 a hmem
          exact hab (keyLe_antisymm (ha b (List.mem_cons_self ..)) hba)

end

/-! ## Forms -/

/-- What a canonical text stands for: integers, strings, arrays, and the
members of an object in the order of their keys. -/
inductive Form
  | bool (b : Bool)
  | int (z : ℤ)
  | str (s : List Char)
  | arr (items : List Form)
  | obj (members : List (List Char × Form))

theorem Form.ind {motive : Form → Prop} (bool : ∀ b, motive (.bool b))
    (int : ∀ z, motive (.int z)) (str : ∀ s, motive (.str s))
    (arr : ∀ fs, (∀ f ∈ fs, motive f) → motive (.arr fs))
    (obj : ∀ ms, (∀ m ∈ ms, motive m.2) → motive (.obj ms)) (f : Form) : motive f := by
  refine @Form.rec motive (fun fs => ∀ f ∈ fs, motive f) (fun ms => ∀ m ∈ ms, motive m.2)
    (fun m => motive m.2) bool int str arr obj ?_ ?_ ?_ ?_ ?_ f
  · exact nofun
  · exact fun f fs hf hfs => List.forall_mem_cons.2 ⟨hf, hfs⟩
  · exact nofun
  · exact fun m ms hm hms => List.forall_mem_cons.2 ⟨hm, hms⟩
  · exact fun _ _ h => h

/-- The plain spelling of an integer. -/
def intText (z : ℤ) : List Char :=
  if z < 0 then '-' :: Nat.toDigits 10 z.natAbs else Nat.toDigits 10 z.natAbs

/-- Texts with commas between them, and the bracket that closes them. -/
def joinTexts (close : Char) : List (List Char) → List Char
  | [] => [close]
  | [t] => t ++ [close]
  | t :: ts => t ++ ',' :: joinTexts close ts

mutual

/-- The text of a form. -/
def Form.print : Form → List Char
  | .bool true => ['t', 'r', 'u', 'e']
  | .bool false => ['f', 'a', 'l', 's', 'e']
  | .int z => intText z
  | .str s => writeString s
  | .arr fs => '[' :: joinTexts ']' (printItems fs)
  | .obj ms => '{' :: joinTexts '}' (printMembers ms)

def printItems : List Form → List (List Char)
  | [] => []
  | f :: fs => f.print :: printItems fs

def printMembers : List (List Char × Form) → List (List Char)
  | [] => []
  | m :: ms => printMember m :: printMembers ms

def printMember : List Char × Form → List Char
  | (k, f) => writeString k ++ ':' :: f.print

end

mutual

/-- The value a parser makes of that text. -/
def Form.toValue : Form → Value
  | .bool b => .bool b
  | .int z => .num (intText z)
  | .str s => .str (s.map Char.toNat)
  | .arr fs => .arr (toValues fs)
  | .obj ms => .obj (toMembers ms)

def toValues : List Form → List Value
  | [] => []
  | f :: fs => f.toValue :: toValues fs

def toMembers : List (List Char × Form) → List (List ℕ × Value)
  | [] => []
  | m :: ms => toMember m :: toMembers ms

def toMember : List Char × Form → List ℕ × Value
  | (k, f) => (k.map Char.toNat, f.toValue)

end

theorem printItems_eq (fs : List Form) : printItems fs = fs.map Form.print := by
  induction fs with
  | nil => rfl
  | cons f fs ih => rw [printItems, ih, List.map_cons]

theorem printMembers_eq (ms : List (List Char × Form)) : printMembers ms = ms.map printMember := by
  induction ms with
  | nil => rfl
  | cons m ms ih => rw [printMembers, ih, List.map_cons]

theorem toValues_eq (fs : List Form) : toValues fs = fs.map Form.toValue := by
  induction fs with
  | nil => rfl
  | cons f fs ih => rw [toValues, ih, List.map_cons]

theorem toMembers_eq (ms : List (List Char × Form)) : toMembers ms = ms.map toMember := by
  induction ms with
  | nil => rfl
  | cons m ms ih => rw [toMembers, ih, List.map_cons]

theorem printMember_eq (m : List Char × Form) :
    printMember m = writeString m.1 ++ ':' :: m.2.print := by
  obtain ⟨k, f⟩ := m
  rfl

theorem toMember_eq (m : List Char × Form) : toMember m = (m.1.map Char.toNat, m.2.toValue) := by
  obtain ⟨k, f⟩ := m
  rfl

/-! ## The text of a form is one of its value -/

theorem intText_derives (z : ℤ) (r : List Char) :
    Derives (intText z ++ r) (.value (.num (intText z))) r := by
  have h : intText z = (Number.plain (decide (z < 0)) z.natAbs).text := by
    rw [Number.plain_text, intText]
    by_cases hz : z < 0
    · simp [hz]
    · simp [hz]
  rw [h]
  exact .num _ r

theorem hexDigit_hexChar {n : ℕ} (h : n < 16) : hexDigit (hexChar n) = some n := by
  have hall : ∀ m : Fin 16, hexDigit (hexChar m) = some m.1 := by decide
  exact hall ⟨n, h⟩

theorem hexUnit_hex4 {n : ℕ} (h : n < 0x20) : ∃ a b c d, hex4 n = [a, b, c, d] ∧
    hexUnit a b c d = some n := by
  refine ⟨_, _, _, _, rfl, ?_⟩
  unfold hexUnit
  rw [hexDigit_hexChar (by omega), hexDigit_hexChar (by omega), hexDigit_hexChar (by omega),
    hexDigit_hexChar (by omega)]
  simp only [Option.pure_def, Option.bind_eq_bind, Option.bind_some, Option.some.injEq]
  omega

/-- One character of a string, as it is written. -/
theorem body_escape (c : Char) {t r : List Char} {u : List ℕ} (h : Body t u r) :
    Body (escape c ++ t) (c.toNat :: u) r := by
  unfold escape
  split_ifs with h1 h2 h3 h4 h5 h6 h7 h8
  · subst h1; exact .short rfl h
  · subst h2; exact .short rfl h
  · subst h3; exact .short rfl h
  · subst h4; exact .short rfl h
  · subst h5; exact .short rfl h
  · subst h6; exact .short rfl h
  · subst h7; exact .short rfl h
  · obtain ⟨x, y, z, w, heq, hn⟩ := hexUnit_hex4 h8
    rw [heq]
    exact .hex hn h
  · exact .plain h1 h2 (by omega) h

theorem body_writeString (s r : List Char) :
    Body (s.flatMap escape ++ '"' :: r) (s.map Char.toNat) r := by
  induction s with
  | nil => exact .close r
  | cons c s ih =>
    rw [List.flatMap_cons, List.append_assoc, List.map_cons]
    exact body_escape c ih

theorem isHighSurrogate_toNat (c : Char) : isHighSurrogate c.toNat = false := by
  have hv := c.valid
  unfold UInt32.isValidChar Nat.isValidChar at hv
  unfold isHighSurrogate
  show (decide (_ ≤ c.val.toNat) && decide (c.val.toNat < _)) = false
  rw [Bool.and_eq_false_iff, decide_eq_false_iff_not, decide_eq_false_iff_not]
  omega

theorem joinSurrogates_toNat (s : List Char) :
    joinSurrogates (s.map Char.toNat) = s.map Char.toNat := by
  induction s with
  | nil => rfl
  | cons c s ih =>
    cases s with
    | nil => rfl
    | cons d s =>
      rw [List.map_cons, List.map_cons, joinSurrogates, isHighSurrogate_toNat, Bool.false_and,
        if_neg (by decide), ← List.map_cons, ih]

theorem writeString_append (s r : List Char) :
    writeString s ++ r = '"' :: (s.flatMap escape ++ '"' :: r) := by
  rw [writeString, List.cons_append, List.append_assoc, List.singleton_append]

theorem items_derives {fs : List Form} (hne : fs ≠ [])
    (ih : ∀ f ∈ fs, ∀ r, Derives (f.print ++ r) (.value f.toValue) r) (r : List Char) :
    Derives (joinTexts ']' (fs.map Form.print) ++ r) (.items (fs.map Form.toValue)) r := by
  induction fs with
  | nil => exact absurd rfl hne
  | cons f fs ihs =>
    obtain ⟨hf, hfs⟩ := List.forall_mem_cons.1 ih
    cases fs with
    | nil =>
      rw [List.map_singleton, List.map_singleton, joinTexts, List.append_assoc]
      exact .lastItem (.nil _) (hf _) (.nil _)
    | cons g gs =>
      show Derives ((f.print ++ ',' :: joinTexts ']' ((g :: gs).map Form.print)) ++ r)
        (.items (f.toValue :: (g :: gs).map Form.toValue)) r
      rw [List.append_assoc, List.cons_append]
      exact .item (.nil _) (hf _) (.nil _) (ihs (List.cons_ne_nil _ _) hfs)

theorem members_derives {ms : List (List Char × Form)} (hne : ms ≠ [])
    (ih : ∀ m ∈ ms, ∀ r, Derives (m.2.print ++ r) (.value m.2.toValue) r) (r : List Char) :
    Derives (joinTexts '}' (ms.map printMember) ++ r) (.members (ms.map toMember)) r := by
  induction ms with
  | nil => exact absurd rfl hne
  | cons m ms ihs =>
    obtain ⟨hm, hms⟩ := List.forall_mem_cons.1 ih
    obtain ⟨k, f⟩ := m
    cases ms with
    | nil =>
      rw [List.map_singleton, List.map_singleton, joinTexts, printMember, toMember,
        List.append_assoc, List.append_assoc, List.cons_append, writeString_append,
        ← joinSurrogates_toNat k]
      exact .lastMember (.nil _) (body_writeString k _) (.nil _) (.nil _) (hm _) (.nil _)
    | cons n ns =>
      show Derives ((printMember (k, f) ++ ',' :: joinTexts '}' ((n :: ns).map printMember)) ++ r)
        (.members (toMember (k, f) :: (n :: ns).map toMember)) r
      rw [printMember, toMember, List.append_assoc, List.append_assoc, List.cons_append,
        List.cons_append, writeString_append, ← joinSurrogates_toNat k]
      exact .member (.nil _) (body_writeString k _) (.nil _) (.nil _) (hm _) (.nil _)
        (ihs (List.cons_ne_nil _ _) hms)

/-- **What is printed is JSON.** -/
theorem Form.print_derives (f : Form) : ∀ r, Derives (f.print ++ r) (.value f.toValue) r := by
  induction f using Form.ind with
  | bool b =>
    intro r
    cases b with
    | true => exact .true r
    | false => exact .false r
  | int z => exact intText_derives z
  | str s =>
    intro r
    show Derives (writeString s ++ r) (.value (.str (s.map Char.toNat))) r
    rw [writeString_append, ← joinSurrogates_toNat s]
    exact .str (body_writeString s r)
  | arr fs ih =>
    intro r
    show Derives ('[' :: (joinTexts ']' (printItems fs) ++ r)) (.value (.arr (toValues fs))) r
    rw [printItems_eq, toValues_eq]
    cases fs with
    | nil => exact .emptyArr (.nil _)
    | cons f fs => exact .arr (items_derives (List.cons_ne_nil _ _) ih r)
  | obj ms ih =>
    intro r
    show Derives ('{' :: (joinTexts '}' (printMembers ms) ++ r)) (.value (.obj (toMembers ms))) r
    rw [printMembers_eq, toMembers_eq]
    cases ms with
    | nil => exact .emptyObj (.nil _)
    | cons m ms => exact .obj (members_derives (List.cons_ne_nil _ _) ih r)

theorem Form.print_text (f : Form) : Json.Text f.print f.toValue := by
  have h := f.print_derives []
  rw [List.append_nil] at h
  exact ⟨_, [], .nil _, h, .nil _⟩

/-! ## The form of a value -/

/-- The integer of a lexeme without fraction and exponent, in the domain and
not `-0`. -/
def integer (l : List Char) : Option ℤ :=
  if isFloating l then none
  else match l with
    | '-' :: ds =>
      if decimal ds = 0 ∨ maxInteger < decimal ds then none else some (-(decimal ds : ℤ))
    | ds => if maxInteger < decimal ds then none else some (decimal ds : ℤ)

/-- Members as an object: in the order of their keys, none of them twice. -/
def ofMembers (ms : List (List Char × Form)) : Option Form :=
  if (ms.map Prod.fst).Nodup then some (.obj (sortByKey ms)) else none

theorem ofMembers_eq_some {ms : List (List Char × Form)} {f : Form} :
    ofMembers ms = some f ↔ (ms.map Prod.fst).Nodup ∧ f = .obj (sortByKey ms) := by
  unfold ofMembers
  by_cases hd : (ms.map Prod.fst).Nodup
  · rw [if_pos hd, Option.some_inj]
    exact ⟨fun h => ⟨hd, h.symm⟩, fun h => h.2.symm⟩
  · rw [if_neg hd]
    exact ⟨nofun, fun h => absurd h.1 hd⟩

mutual

/-- The form of a value, where it has one. -/
def form : Value → Option Form
  | .null => none
  | .bool b => some (.bool b)
  | .num l => (integer l).map .int
  | .str s => (scalars s).map .str
  | .arr vs => (formItems vs).map .arr
  | .obj ms => (formMembers ms).bind ofMembers

def formItems : List Value → Option (List Form)
  | [] => some []
  | v :: vs => (form v).bind fun f => (formItems vs).map (f :: ·)

def formMembers : List (List ℕ × Value) → Option (List (List Char × Form))
  | [] => some []
  | m :: ms => (formMember m).bind fun f => (formMembers ms).map (f :: ·)

def formMember : List ℕ × Value → Option (List Char × Form)
  | (k, v) => (scalars k).bind fun key => (form v).map (key, ·)

end

theorem formItems_iff {vs : List Value} {fs : List Form} :
    formItems vs = some fs ↔ List.Forall₂ (fun v f => form v = some f) vs fs :=
  option_reads_iff (f := form) (F := formItems) rfl fun _ _ => rfl

theorem formMembers_iff {ms : List (List ℕ × Value)} {fs : List (List Char × Form)} :
    formMembers ms = some fs ↔ List.Forall₂ (fun m f => formMember m = some f) ms fs :=
  option_reads_iff (f := formMember) (F := formMembers) rfl fun _ _ => rfl

theorem formMember_iff {m : List ℕ × Value} {f : List Char × Form} :
    formMember m = some f ↔ scalars m.1 = some f.1 ∧ form m.2 = some f.2 := by
  obtain ⟨k, v⟩ := m
  obtain ⟨key, g⟩ := f
  rw [formMember, Option.bind_eq_some_iff]
  constructor
  · rintro ⟨key', hk, h⟩
    obtain ⟨g', hg, heq⟩ := Option.map_eq_some_iff.1 h
    cases heq
    exact ⟨hk, hg⟩
  · rintro ⟨hk, hg⟩
    exact ⟨key, hk, by rw [hg]; rfl⟩

theorem form_arr {vs : List Value} {f : Form} : form (.arr vs) = some f ↔
    ∃ fs, List.Forall₂ (fun v f => form v = some f) vs fs ∧ f = .arr fs := by
  rw [form, Option.map_eq_some_iff]
  exact exists_congr fun fs => and_congr formItems_iff eq_comm

theorem form_obj {ms : List (List ℕ × Value)} {f : Form} : form (.obj ms) = some f ↔
    ∃ fs, List.Forall₂ (fun m f => formMember m = some f) ms fs ∧ (fs.map Prod.fst).Nodup ∧
      f = .obj (sortByKey fs) := by
  rw [form, Option.bind_eq_some_iff]
  exact exists_congr fun fs => and_congr formMembers_iff ofMembers_eq_some

theorem scalars_eq_some {s : List ℕ} {cs : List Char} :
    scalars s = some cs ↔ s = cs.map Char.toNat := by
  induction s generalizing cs with
  | nil =>
    rw [scalars, Option.some_inj, eq_comm (a := []), eq_comm (a := []), List.map_eq_nil_iff]
  | cons n ns ih =>
    rw [scalars]
    by_cases h : n.isValidChar
    · rw [dif_pos h, Option.map_eq_some_iff]
      constructor
      · rintro ⟨ds, hd, rfl⟩
        rw [List.map_cons, ← ih.1 hd]
        rfl
      · intro heq
        cases cs with
        | nil => cases heq
        | cons c ds =>
          obtain ⟨hc, hd⟩ := List.cons.inj heq
          exact ⟨ds, ih.2 hd, congrArg (· :: ds) (Char.toNat_inj.1 hc)⟩
    · rw [dif_neg h]
      refine ⟨nofun, fun heq => ?_⟩
      cases cs with
      | nil => cases heq
      | cons c ds =>
        obtain ⟨hc, -⟩ := List.cons.inj heq
        exact absurd (hc ▸ c.valid) h

theorem isFloating_of_digits {ds : List Char} (h : ∀ c ∈ ds, c.isDigit = true) :
    isFloating ds = false := by
  unfold isFloating
  rw [List.any_eq_false]
  intro c hc hf
  have hd := h c hc
  simp only [Bool.or_eq_true, decide_eq_true_eq] at hf
  rcases hf with (rfl | rfl) | rfl <;> exact absurd hd (by decide)

theorem integer_plain {l : List Char} (hf : isFloating l = false) (hne : ∀ ds, l ≠ '-' :: ds) :
    integer l = if maxInteger < decimal l then none else some (decimal l : ℤ) := by
  unfold integer
  rw [hf, if_neg (by decide)]
  split
  · exact absurd rfl (hne _)
  · rfl

theorem integer_signed {ds : List Char} (hf : isFloating ('-' :: ds) = false) :
    integer ('-' :: ds) =
      if decimal ds = 0 ∨ maxInteger < decimal ds then none else some (-(decimal ds : ℤ)) := by
  unfold integer
  rw [hf, if_neg (by decide)]
  rfl

theorem integer_digits {ds : List Char} (h : ∀ c ∈ ds, c.isDigit = true) :
    integer ds = if maxInteger < decimal ds then none else some (decimal ds : ℤ) := by
  refine integer_plain (isFloating_of_digits h) fun cs heq => ?_
  exact absurd (h '-' (heq ▸ List.mem_cons_self)) (by decide)

theorem integer_minus {ds : List Char} (h : ∀ c ∈ ds, c.isDigit = true) :
    integer ('-' :: ds) =
      if decimal ds = 0 ∨ maxInteger < decimal ds then none else some (-(decimal ds : ℤ)) :=
  -- the sign is no letter of a fraction or an exponent
  integer_signed (show isFloating ds = false from isFloating_of_digits h)

theorem integer_le {l : List Char} {z : ℤ} (h : integer l = some z) : z.natAbs ≤ maxInteger := by
  unfold integer at h
  split_ifs at h with hf
  split at h
  · split_ifs at h with hd
    cases h
    omega
  · split_ifs at h with hd
    cases h
    omega

theorem integer_intText {z : ℤ} (h : z.natAbs ≤ maxInteger) : integer (intText z) = some z := by
  have hds : ∀ c ∈ Nat.toDigits 10 z.natAbs, c.isDigit = true := fun _ => isDigit_of_mem_toDigits
  unfold intText
  by_cases hz : z < 0
  · rw [if_pos hz, integer_minus hds, decimal_toDigits, if_neg (by omega), Option.some_inj]
    omega
  · rw [if_neg hz, integer_digits hds, decimal_toDigits, if_neg (by omega), Option.some_inj]
    omega

theorem form_toValue {v : Value} : ∀ {f : Form}, form v = some f → form f.toValue = some f := by
  induction v using Value.ind with
  | null => nofun
  | bool b => intro f h; cases h; rfl
  | num l =>
    intro f h
    obtain ⟨z, hz, rfl⟩ := Option.map_eq_some_iff.1 h
    show (integer (intText z)).map Form.int = _
    rw [integer_intText (integer_le hz), Option.map_some]
  | str s =>
    intro f h
    obtain ⟨cs, -, rfl⟩ := Option.map_eq_some_iff.1 h
    show (scalars (cs.map Char.toNat)).map Form.str = _
    rw [scalars_eq_some.2 rfl, Option.map_some]
  | arr vs ih =>
    intro f h
    obtain ⟨fs, hfs, rfl⟩ := form_arr.1 h
    show form (.arr (toValues fs)) = _
    rw [form_arr, toValues_eq]
    refine ⟨fs, List.forall₂_map_left_iff.2 (List.forall₂_same.2 fun f hf => ?_), rfl⟩
    obtain ⟨v, hv, hvf⟩ := forall₂_exists_left hfs hf
    exact ih v hv hvf
  | obj ms ih =>
    intro f h
    obtain ⟨fs, hfs, hd, rfl⟩ := form_obj.1 h
    show form (.obj (toMembers (sortByKey fs))) = _
    rw [form_obj, toMembers_eq]
    refine ⟨sortByKey fs, List.forall₂_map_left_iff.2 (List.forall₂_same.2 fun f hf => ?_),
      nodup_keys_perm (sortByKey_perm fs) hd, ?_⟩
    · obtain ⟨m, hm, hmf⟩ := forall₂_exists_left hfs ((sortByKey_perm fs).subset hf)
      rw [toMember_eq]
      exact formMember_iff.2 ⟨scalars_eq_some.2 rfl, ih m hm (formMember_iff.1 hmf).2⟩
    · rw [sortByKey_of_sorted (sorted_sortByKey fs)]

/-- A form nests no deeper than the value. -/
theorem depth_toValue {v : Value} : ∀ {f : Form}, form v = some f → f.toValue.depth ≤ v.depth := by
  induction v using Value.ind with
  | null => nofun
  | bool b => intro f h; cases h; exact Nat.zero_le _
  | num l =>
    intro f h
    obtain ⟨z, -, rfl⟩ := Option.map_eq_some_iff.1 h
    exact Nat.zero_le _
  | str s =>
    intro f h
    obtain ⟨cs, -, rfl⟩ := Option.map_eq_some_iff.1 h
    exact Nat.zero_le _
  | arr vs ih =>
    intro f h
    obtain ⟨fs, hfs, rfl⟩ := form_arr.1 h
    show itemsDepth (toValues fs) + 1 ≤ itemsDepth vs + 1
    rw [Nat.add_le_add_iff_right, toValues_eq, itemsDepth_le]
    intro w hw
    obtain ⟨f, hf, rfl⟩ := List.mem_map.1 hw
    obtain ⟨v, hv, hvf⟩ := forall₂_exists_left hfs hf
    exact (ih v hv hvf).trans (itemsDepth_le.1 (Nat.le_refl _) v hv)
  | obj ms ih =>
    intro f h
    obtain ⟨fs, hfs, -, rfl⟩ := form_obj.1 h
    show membersDepth (toMembers (sortByKey fs)) + 1 ≤ membersDepth ms + 1
    rw [Nat.add_le_add_iff_right, toMembers_eq, membersDepth_le]
    intro w hw
    obtain ⟨f, hf, rfl⟩ := List.mem_map.1 hw
    obtain ⟨m, hm, hmf⟩ := forall₂_exists_left hfs ((sortByKey_perm fs).subset hf)
    rw [toMember_eq]
    exact (ih m hm (formMember_iff.1 hmf).2).trans (membersDepth_le.1 (Nat.le_refl _) m hm)

end CanonicalJson

end Protocol

end Tensorplate
