import Tensorplate.Lib.JsonParser
import Tensorplate.Protocol.CanonicalForm

/-!
# One form for every value

Reading and writing go through the form of a value: a text is accepted
exactly when its value has one and nests no deeper than the limit, and what
is written is the text of the form. So two accepted texts share their bytes
exactly when their values agree.
-/

namespace Tensorplate

namespace Protocol

namespace CanonicalJson

open Lib Lib.Json

/-! ## Nodes -/

theorem Node.ind {motive : Node → Prop} (null : motive .null) (bool : ∀ b, motive (.bool b))
    (unsigned : ∀ v, motive (.unsigned v)) (signed : ∀ v, motive (.signed v))
    (float : ∀ v, motive (.float v)) (string : ∀ s, motive (.string s))
    (array : ∀ ns, (∀ n ∈ ns, motive n) → motive (.array ns))
    (object : ∀ ms, (∀ m ∈ ms, motive m.2) → motive (.object ms)) (n : Node) : motive n := by
  refine @Node.rec motive (fun ns => ∀ n ∈ ns, motive n) (fun ms => ∀ m ∈ ms, motive m.2)
    (fun m => motive m.2) null bool unsigned signed float string array object ?_ ?_ ?_ ?_ ?_ n
  · exact nofun
  · exact fun n ns hn hns => List.forall_mem_cons.2 ⟨hn, hns⟩
  · exact nofun
  · exact fun m ms hm hms => List.forall_mem_cons.2 ⟨hm, hms⟩
  · exact fun _ _ h => h

mutual

/-- The form a node is written in. -/
def Node.form : Node → Option Form
  | .null => none
  | .bool b => some (.bool b)
  | .unsigned v => if maxInteger < v then none else some (.int v)
  | .signed v => if maxInteger < v.natAbs then none else some (.int v)
  | .float _ => none
  | .string s => some (.str s)
  | .array ns => (nodeItems ns).map .arr
  | .object ms => (nodeMembers ms).bind ofMembers

def nodeItems : List Node → Option (List Form)
  | [] => some []
  | n :: ns => n.form.bind fun f => (nodeItems ns).map (f :: ·)

def nodeMembers : List (List Char × Node) → Option (List (List Char × Form))
  | [] => some []
  | m :: ms => (nodeMember m).bind fun f => (nodeMembers ms).map (f :: ·)

def nodeMember : List Char × Node → Option (List Char × Form)
  | (k, n) => n.form.map (k, ·)

end

theorem nodeMember_iff {m : List Char × Node} {f : List Char × Form} :
    nodeMember m = some f ↔ m.1 = f.1 ∧ m.2.form = some f.2 := by
  obtain ⟨k, n⟩ := m
  obtain ⟨key, g⟩ := f
  rw [nodeMember, Option.map_eq_some_iff]
  constructor
  · rintro ⟨g', hg, heq⟩
    cases heq
    exact ⟨rfl, hg⟩
  · rintro ⟨rfl, hg⟩
    exact ⟨g, hg, rfl⟩

theorem nodeForm_array {ns : List Node} {f : Form} : (Node.array ns).form = some f ↔
    ∃ fs, List.Forall₂ (fun n f => n.form = some f) ns fs ∧ f = .arr fs := by
  rw [Node.form, Option.map_eq_some_iff]
  refine exists_congr fun fs => and_congr ?_ eq_comm
  exact option_reads_iff (f := Node.form) (F := nodeItems) rfl fun _ _ => rfl

theorem nodeForm_object {ms : List (List Char × Node)} {f : Form} :
    (Node.object ms).form = some f ↔
      ∃ fs, List.Forall₂ (fun m f => nodeMember m = some f) ms fs ∧ (fs.map Prod.fst).Nodup ∧
        f = .obj (sortByKey fs) := by
  rw [Node.form, Option.bind_eq_some_iff]
  refine exists_congr fun fs => and_congr ?_ ofMembers_eq_some
  exact option_reads_iff (f := nodeMember) (F := nodeMembers) rfl fun _ _ => rfl

/-! ## Writing -/

theorem writeItems_eq (ns : List Node) : writeItems ns = ns.map writeNode := by
  induction ns with
  | nil => rfl
  | cons n ns ih => rw [writeItems, ih, List.map_cons]

theorem writeValues_eq (ms : List (List Char × Node)) :
    writeValues ms = ms.map fun m => (m.1, writeNode m.2) := by
  induction ms with
  | nil => rfl
  | cons m ms ih => rw [writeValues, writeKeyed, ih, List.map_cons]

/-- Texts without an error are joined. -/
theorem joinItems_ok (ts : List (List Char)) :
    joinItems (ts.map .ok) = .ok (joinTexts ']' ts) := by
  induction ts with
  | nil => rfl
  | cons t ts ih =>
    cases ts with
    | nil => rfl
    | cons u us =>
      show Except.bind (.ok t) (fun t => (joinItems ((u :: us).map .ok)).map fun ts => _) = _
      rw [ih]
      rfl

/-- An error among the texts is returned. -/
theorem ok_of_joinItems {es : List (Except CanonicalJsonError (List Char))} :
    ∀ {out : List Char}, joinItems es = .ok out → ∀ e ∈ es, ∃ t, e = .ok t := by
  induction es with
  | nil => nofun
  | cons e es ih =>
    intro out h
    cases e with
    | error err => cases es <;> cases h
    | ok t =>
      refine List.forall_mem_cons.2 ⟨⟨t, rfl⟩, ?_⟩
      cases es with
      | nil => nofun
      | cons e' es' =>
        change (joinItems (e' :: es')).map (fun ts => t ++ ',' :: ts) = .ok out at h
        cases hj : joinItems (e' :: es') with
        | error err => rw [hj] at h; cases h
        | ok ts => exact ih hj

theorem joinMembers_ok (ms : List (List Char × List Char)) :
    joinMembers (ms.map fun m => (m.1, .ok m.2)) =
      .ok (joinTexts '}' (ms.map fun m => writeString m.1 ++ ':' :: m.2)) := by
  induction ms with
  | nil => rfl
  | cons m ms ih =>
    cases ms with
    | nil => rfl
    | cons n ns =>
      show Except.bind (.ok _) (fun t =>
        (joinMembers ((n :: ns).map fun m => (m.1, .ok m.2))).map fun ts => _) = _
      rw [ih]
      rfl

theorem ok_of_joinMembers {es : List (List Char × Except CanonicalJsonError (List Char))} :
    ∀ {out : List Char}, joinMembers es = .ok out → ∀ e ∈ es, ∃ t, e.2 = .ok t := by
  induction es with
  | nil => nofun
  | cons e es ih =>
    intro out h
    obtain ⟨k, e⟩ := e
    cases e with
    | error err => cases es <;> cases h
    | ok t =>
      refine List.forall_mem_cons.2 ⟨⟨t, rfl⟩, ?_⟩
      cases es with
      | nil => nofun
      | cons e' es' =>
        change (joinMembers (e' :: es')).map (fun ts => _ ++ ',' :: ts) = .ok out at h
        cases hj : joinMembers (e' :: es') with
        | error err => rw [hj] at h; cases h
        | ok ts => exact ih hj

/-- An object is written from the texts of its members when they are all
there and no key is repeated. -/
theorem writeObject_ok {ms : List (List Char × List Char)} (hd : (ms.map Prod.fst).Nodup) :
    writeObject (ms.map fun m => (m.1, .ok m.2)) =
      .ok ('{' :: joinTexts '}' ((sortByKey ms).map fun m => writeString m.1 ++ ':' :: m.2)) := by
  unfold writeObject
  have hkeys : ((sortByKey ms).map Prod.fst).Nodup := nodup_keys_perm (sortByKey_perm ms) hd
  have hnone : firstRepeat ((sortByKey ms).map Prod.fst) = none :=
    (firstRepeat_none_iff (sorted_sortByKey ms).keys).2 hkeys
  rw [← map_sortByKey]
  dsimp only
  rw [List.map_map]
  have hcomp : (Prod.fst ∘ fun m : List Char × List Char =>
      (m.1, (Except.ok m.2 : Except CanonicalJsonError (List Char)))) = Prod.fst := rfl
  rw [hcomp, hnone, joinMembers_ok]
  rfl

theorem of_writeObject {es : List (List Char × Except CanonicalJsonError (List Char))}
    {out : List Char} (h : writeObject es = .ok out) :
    (es.map Prod.fst).Nodup ∧ ∀ e ∈ es, ∃ t, e.2 = .ok t := by
  unfold writeObject at h
  dsimp only at h
  split at h
  · cases h
  case h_2 hnone =>
    constructor
    · have hs := (sorted_sortByKey es).keys
      exact nodup_keys_perm (sortByKey_perm es).symm ((firstRepeat_none_iff hs).1 hnone)
    · intro e he
      cases hj : joinMembers (sortByKey es) with
      | error err => rw [hj] at h; cases h
      | ok ts => exact ok_of_joinMembers hj e ((sortByKey_perm es).symm.subset he)

/-- The texts of nodes that have forms. -/
theorem map_writeNode {ns : List Node} {fs : List Form}
    (h : List.Forall₂ (fun n f => writeNode n = .ok f.print) ns fs) :
    ns.map writeNode = (fs.map Form.print).map .ok := by
  rw [List.map_map]
  exact map_eq_of_forall₂ h

theorem map_writeKeyed {ms : List (List Char × Node)} {fs : List (List Char × Form)}
    (h : List.Forall₂ (fun m f => m.1 = f.1 ∧ writeNode m.2 = .ok f.2.print) ms fs) :
    ms.map (fun m => (m.1, writeNode m.2)) =
      (fs.map fun f => (f.1, f.2.print)).map fun m => (m.1, .ok m.2) := by
  rw [List.map_map]
  refine map_eq_of_forall₂ (h.imp fun m f hm => ?_)
  rw [hm.1, hm.2]
  rfl

theorem writeObject_forms {ms : List (List Char × Node)} {fs : List (List Char × Form)}
    (h : List.Forall₂ (fun m f => m.1 = f.1 ∧ writeNode m.2 = .ok f.2.print) ms fs)
    (hd : (fs.map Prod.fst).Nodup) :
    writeObject (ms.map fun m => (m.1, writeNode m.2)) = .ok (Form.obj (sortByKey fs)).print := by
  rw [map_writeKeyed h, writeObject_ok (by rw [List.map_map]; exact hd), ← map_sortByKey,
    List.map_map, Form.print, printMembers_eq]
  congr 3
  exact List.map_congr_left fun m _ => (printMember_eq m).symm

/-- **Writing.** A node is written exactly when it has a form, as the text
of the form. -/
theorem writeNode_iff (n : Node) : ∀ {out : List Char}, writeNode n = .ok out ↔
    ∃ f, n.form = some f ∧ out = f.print := by
  induction n using Node.ind with
  | null | float v =>
    intro out
    exact ⟨nofun, fun ⟨_, h, _⟩ => nomatch h⟩
  | bool b =>
    intro out
    cases b <;> exact ⟨fun h => ⟨_, rfl, by cases h; rfl⟩, fun ⟨_, h, ho⟩ => by cases h; rw [ho]; rfl⟩
  | unsigned v =>
    intro out
    rw [writeNode, Node.form]
    by_cases hv : maxInteger < v
    · rw [if_pos hv, if_pos hv]
      exact ⟨nofun, fun ⟨_, h, _⟩ => nomatch h⟩
    · rw [if_neg hv, if_neg hv]
      exact ⟨fun h => ⟨_, rfl, by cases h; rfl⟩, fun ⟨_, h, ho⟩ => by cases h; rw [ho]; rfl⟩
  | signed v =>
    intro out
    rw [writeNode, Node.form]
    by_cases hv : maxInteger < v.natAbs
    · rw [if_pos hv, if_pos hv]
      exact ⟨nofun, fun ⟨_, h, _⟩ => nomatch h⟩
    · rw [if_neg hv, if_neg hv]
      exact ⟨fun h => ⟨_, rfl, by cases h; rfl⟩, fun ⟨_, h, ho⟩ => by cases h; rw [ho]; rfl⟩
  | string s =>
    intro out
    exact ⟨fun h => ⟨_, rfl, by cases h; rfl⟩, fun ⟨_, h, ho⟩ => by cases h; rw [ho]; rfl⟩
  | array ns ih =>
    intro out
    rw [writeNode, writeItems_eq]
    constructor
    · intro h
      have hall : ∀ n ∈ ns, ∃ f, n.form = some f := by
        intro n hn
        cases hj : joinItems (ns.map writeNode) with
        | error err => rw [hj] at h; cases h
        | ok ts =>
          obtain ⟨t, ht⟩ := ok_of_joinItems hj _ (List.mem_map_of_mem hn)
          obtain ⟨f, hf, -⟩ := (ih n hn).1 ht
          exact ⟨f, hf⟩
      obtain ⟨fs, hfs⟩ := exists_forall₂ hall
      refine ⟨.arr fs, nodeForm_array.2 ⟨fs, hfs, rfl⟩, ?_⟩
      have hw := map_writeNode (forall₂_imp_mem hfs fun n hn f _ hf => (ih n hn).2 ⟨f, hf, rfl⟩)
      rw [hw, joinItems_ok] at h
      cases h
      rw [Form.print, printItems_eq]
    · rintro ⟨f, hf, rfl⟩
      obtain ⟨fs, hfs, rfl⟩ := nodeForm_array.1 hf
      have hw := map_writeNode (forall₂_imp_mem hfs fun n hn f _ hf => (ih n hn).2 ⟨f, hf, rfl⟩)
      rw [hw, joinItems_ok, Form.print, printItems_eq]
      rfl
  | object ms ih =>
    intro out
    have hwrite : ∀ fs, List.Forall₂ (fun m f => nodeMember m = some f) ms fs →
        (fs.map Prod.fst).Nodup → writeObject (ms.map fun m => (m.1, writeNode m.2)) =
          .ok (Form.obj (sortByKey fs)).print := by
      intro fs hfs hd
      refine writeObject_forms (forall₂_imp_mem hfs fun m hm f _ hf => ?_) hd
      obtain ⟨hk, hn⟩ := nodeMember_iff.1 hf
      exact ⟨hk, (ih m hm).2 ⟨_, hn, rfl⟩⟩
    rw [writeNode, writeValues_eq]
    constructor
    · intro h
      obtain ⟨hd, hok⟩ := of_writeObject h
      have hall : ∀ m ∈ ms, ∃ f, nodeMember m = some f := by
        intro m hm
        obtain ⟨t, ht⟩ := hok _ (List.mem_map_of_mem hm)
        obtain ⟨f, hf, -⟩ := (ih m hm).1 ht
        exact ⟨(m.1, f), nodeMember_iff.2 ⟨rfl, hf⟩⟩
      obtain ⟨fs, hfs⟩ := exists_forall₂ hall
      have hkeys : ms.map Prod.fst = fs.map Prod.fst :=
        map_eq_of_forall₂ (hfs.imp fun m f hf => (nodeMember_iff.1 hf).1)
      rw [List.map_map] at hd
      have hd' : (fs.map Prod.fst).Nodup := hkeys ▸ hd
      refine ⟨_, nodeForm_object.2 ⟨fs, hfs, hd', rfl⟩, ?_⟩
      rw [hwrite fs hfs hd'] at h
      exact (Except.ok.inj h).symm
    · rintro ⟨f, hf, rfl⟩
      obtain ⟨fs, hfs, hd, rfl⟩ := nodeForm_object.1 hf
      exact hwrite fs hfs hd

/-! ## Reading -/

theorem enter_eq_ok {limit depth inner : ℕ} :
    enter limit depth = .ok inner ↔ depth < limit ∧ inner = depth + 1 := by
  unfold enter
  by_cases h : limit ≤ depth
  · rw [if_pos h]
    exact ⟨nofun, fun ⟨h', _⟩ => absurd h (Nat.not_le.2 h')⟩
  · rw [if_neg h]
    exact ⟨fun h' => ⟨Nat.lt_of_not_le h, by cases h'; rfl⟩, fun ⟨_, h'⟩ => by rw [h']⟩

theorem bind_eq_ok {α β ε : Type} {x : Except ε α} {g : α → Except ε β} {b : β} :
    x.bind g = .ok b ↔ ∃ a, x = .ok a ∧ g a = .ok b := by
  cases x with
  | error e => exact ⟨nofun, fun ⟨_, h, _⟩ => nomatch h⟩
  | ok a => exact ⟨fun h => ⟨a, rfl, h⟩, fun ⟨_, h, hg⟩ => by cases h; exact hg⟩

theorem map_eq_ok {α β ε : Type} {x : Except ε α} {g : α → β} {b : β} :
    x.map g = .ok b ↔ ∃ a, x = .ok a ∧ g a = b := by
  cases x with
  | error e => exact ⟨nofun, fun ⟨_, h, _⟩ => nomatch h⟩
  | ok a => exact ⟨fun h => ⟨a, rfl, Except.ok.inj h⟩, fun ⟨_, h, hg⟩ => by cases h; rw [← hg]; rfl⟩

section

variable {P : Parser} {text : List Char} {limit : ℕ}

/-- A number that goes to the double has no form. -/
theorem visitNumber_form (l : List Char) :
    (visitNumber P text l).toOption.bind Node.form = (integer l).map .int := by
  have hmax : maxInteger < 2 ^ 63 := by decide
  unfold visitNumber
  dsimp only
  by_cases hf : isFloating l = true
  · rw [if_pos hf, show integer l = none from if_pos hf]
    cases P.double l <;> rfl
  · rw [if_neg hf]
    rw [Bool.not_eq_true] at hf
    split
    case h_1 ds =>
      rw [integer_signed hf]
      by_cases hi : decimal ds = 0 ∨ 2 ^ 63 < decimal ds
      · rw [if_pos hi, if_pos (by omega)]
        cases P.double ('-' :: ds) <;> rfl
      · rw [if_neg hi]
        show (if maxInteger < (-(decimal ds : ℤ)).natAbs then none else _) = _
        rw [Int.natAbs_neg, Int.natAbs_natCast]
        by_cases hm : maxInteger < decimal ds
        · rw [if_pos hm, if_pos (Or.inr hm)]
          rfl
        · rw [if_neg hm, if_neg (by omega)]
          rfl
    case h_2 hne =>
      rw [integer_plain hf hne]
      by_cases hi : decimal l < 2 ^ 64
      · rw [if_pos hi]
        show (if maxInteger < decimal l then none else _) = _
        by_cases hm : maxInteger < decimal l
        · rw [if_pos hm, if_pos hm]
          rfl
        · rw [if_neg hm, if_neg hm]
          rfl
      · rw [if_neg hi, if_pos (by omega)]
        cases P.double l <;> rfl

theorem toOption_bind {ε : Type} {x : Except ε Node} {f : Form} :
    (∃ n, x = .ok n ∧ n.form = some f) ↔ x.toOption.bind Node.form = some f := by
  cases x with
  | error e => exact ⟨fun ⟨_, h, _⟩ => (nomatch h), nofun⟩
  | ok n => exact ⟨fun ⟨_, h, hf⟩ => by cases h; exact hf, fun h => ⟨n, rfl, h⟩⟩

theorem visitString_eq_ok {s : List ℕ} {cs : List Char} :
    visitString P text s = .ok cs ↔ scalars s = some cs := by
  unfold visitString
  cases scalars s with
  | none => exact ⟨nofun, nofun⟩
  | some cs' => exact ⟨fun h => by cases h; rfl, fun h => by cases h; rfl⟩

theorem visitSeq_iff {inner : ℕ} {vs : List Value} {ns : List Node} :
    visitSeq P text limit inner vs = .ok ns ↔
      List.Forall₂ (fun v n => visit P text limit inner v = .ok n) vs ns :=
  except_reads_iff (f := visit P text limit inner) (F := visitSeq P text limit inner) rfl
    fun _ _ => rfl

theorem visitMap_iff {inner : ℕ} {ms : List (List ℕ × Value)} {ns : List (List Char × Node)} :
    visitMap P text limit inner ms = .ok ns ↔
      List.Forall₂ (fun m n => visitMember P text limit inner m = .ok n) ms ns :=
  except_reads_iff (f := visitMember P text limit inner) (F := visitMap P text limit inner) rfl
    fun _ _ => rfl

theorem visitMember_iff {inner : ℕ} {m : List ℕ × Value} {n : List Char × Node} :
    visitMember P text limit inner m = .ok n ↔
      scalars m.1 = some n.1 ∧ visit P text limit inner m.2 = .ok n.2 := by
  obtain ⟨k, v⟩ := m
  obtain ⟨key, x⟩ := n
  rw [visitMember, bind_eq_ok]
  constructor
  · rintro ⟨key', hk, h⟩
    obtain ⟨x', hx, heq⟩ := map_eq_ok.1 h
    cases heq
    exact ⟨visitString_eq_ok.1 hk, hx⟩
  · rintro ⟨hk, hx⟩
    exact ⟨key, visitString_eq_ok.2 hk, map_eq_ok.2 ⟨x, hx, rfl⟩⟩

theorem visit_arr {depth : ℕ} {vs : List Value} {n : Node} :
    visit P text limit depth (.arr vs) = .ok n ↔ depth < limit ∧
      ∃ ns, List.Forall₂ (fun v n => visit P text limit (depth + 1) v = .ok n) vs ns ∧
        n = .array ns := by
  rw [visit, bind_eq_ok]
  constructor
  · rintro ⟨inner, hin, h⟩
    obtain ⟨hlt, rfl⟩ := enter_eq_ok.1 hin
    obtain ⟨ns, hns, rfl⟩ := map_eq_ok.1 h
    exact ⟨hlt, ns, visitSeq_iff.1 hns, rfl⟩
  · rintro ⟨hlt, ns, hns, rfl⟩
    exact ⟨_, enter_eq_ok.2 ⟨hlt, rfl⟩, map_eq_ok.2 ⟨ns, visitSeq_iff.2 hns, rfl⟩⟩

theorem visit_obj {depth : ℕ} {ms : List (List ℕ × Value)} {n : Node} :
    visit P text limit depth (.obj ms) = .ok n ↔ depth < limit ∧
      ∃ ns, List.Forall₂ (fun m n => visitMember P text limit (depth + 1) m = .ok n) ms ns ∧
        n = .object ns := by
  rw [visit, bind_eq_ok]
  constructor
  · rintro ⟨inner, hin, h⟩
    obtain ⟨hlt, rfl⟩ := enter_eq_ok.1 hin
    obtain ⟨ns, hns, rfl⟩ := map_eq_ok.1 h
    exact ⟨hlt, ns, visitMap_iff.1 hns, rfl⟩
  · rintro ⟨hlt, ns, hns, rfl⟩
    exact ⟨_, enter_eq_ok.2 ⟨hlt, rfl⟩, map_eq_ok.2 ⟨ns, visitMap_iff.2 hns, rfl⟩⟩

/-- **Reading.** What is read has a form exactly when the value has it and
nests no deeper than the limit. -/
theorem visit_form (v : Value) : ∀ {depth : ℕ} {f : Form}, depth ≤ limit →
    ((∃ n, visit P text limit depth v = .ok n ∧ n.form = some f) ↔
      form v = some f ∧ v.depth + depth ≤ limit) := by
  induction v using Value.ind with
  | null =>
    intro depth f _
    exact ⟨fun ⟨n, hn, hf⟩ => (by cases hn; cases hf), nofun⟩
  | bool b =>
    intro depth f hd
    constructor
    · rintro ⟨n, hn, hf⟩
      cases hn
      cases hf
      exact ⟨rfl, (Nat.zero_add depth).le.trans hd⟩
    · rintro ⟨hf, -⟩
      cases hf
      exact ⟨_, rfl, rfl⟩
  | num l =>
    intro depth f hd
    rw [visit, toOption_bind, visitNumber_form, form]
    exact ⟨fun h => ⟨h, (Nat.zero_add depth).le.trans hd⟩, fun h => h.1⟩
  | str s =>
    intro depth f hd
    rw [visit, form]
    constructor
    · rintro ⟨n, hn, hf⟩
      obtain ⟨cs, hcs, rfl⟩ := map_eq_ok.1 hn
      cases hf
      exact ⟨by rw [visitString_eq_ok.1 hcs]; rfl, (Nat.zero_add depth).le.trans hd⟩
    · rintro ⟨hf, -⟩
      obtain ⟨cs, hcs, rfl⟩ := Option.map_eq_some_iff.1 hf
      exact ⟨_, map_eq_ok.2 ⟨cs, visitString_eq_ok.2 hcs, rfl⟩, rfl⟩
  | arr vs ih =>
    intro depth f hd
    constructor
    · rintro ⟨n, hn, hf⟩
      obtain ⟨hlt, ns, hns, rfl⟩ := visit_arr.1 hn
      obtain ⟨fs, hfs, rfl⟩ := nodeForm_array.1 hf
      have hboth := forall₂_comp hns hfs fun v hv n _ f hn hf => (ih v hv hlt).1 ⟨n, hn, hf⟩
      refine ⟨form_arr.2 ⟨fs, hboth.imp fun _ _ h => h.1, rfl⟩, ?_⟩
      have hle : itemsDepth vs ≤ limit - (depth + 1) := itemsDepth_le.2 fun v hv => by
        obtain ⟨f, -, hf⟩ := forall₂_exists_right hboth hv
        omega
      rw [Value.depth]
      omega
    · rintro ⟨hf, hle⟩
      rw [Value.depth] at hle
      have hlt : depth < limit := by omega
      obtain ⟨fs, hfs, rfl⟩ := form_arr.1 hf
      obtain ⟨ns, hns, hforms⟩ := forall₂_split hfs fun v hv f _ hf => by
        have := itemsDepth_le.1 (Nat.le_refl _) v hv
        exact (ih v hv hlt).2 ⟨hf, by omega⟩
      exact ⟨_, visit_arr.2 ⟨hlt, ns, hns, rfl⟩, nodeForm_array.2 ⟨fs, hforms, rfl⟩⟩
  | obj ms ih =>
    intro depth f hd
    constructor
    · rintro ⟨n, hn, hf⟩
      obtain ⟨hlt, ns, hns, rfl⟩ := visit_obj.1 hn
      obtain ⟨fs, hfs, hdis, rfl⟩ := nodeForm_object.1 hf
      have hboth : List.Forall₂ (fun m f => formMember m = some f ∧ m.2.depth + (depth + 1) ≤ limit)
          ms fs := forall₂_comp hns hfs fun m hm n _ f hn hf => by
        obtain ⟨hk, hv⟩ := visitMember_iff.1 hn
        obtain ⟨hk', hf'⟩ := nodeMember_iff.1 hf
        have := (ih m hm hlt).1 ⟨_, hv, hf'⟩
        exact ⟨formMember_iff.2 ⟨hk' ▸ hk, this.1⟩, this.2⟩
      refine ⟨form_obj.2 ⟨fs, hboth.imp fun _ _ h => h.1, hdis, rfl⟩, ?_⟩
      have hle : membersDepth ms ≤ limit - (depth + 1) := membersDepth_le.2 fun m hm => by
        obtain ⟨f, -, hf⟩ := forall₂_exists_right hboth hm
        omega
      rw [Value.depth]
      omega
    · rintro ⟨hf, hle⟩
      rw [Value.depth] at hle
      have hlt : depth < limit := by omega
      obtain ⟨fs, hfs, hdis, rfl⟩ := form_obj.1 hf
      obtain ⟨ns, hns, hforms⟩ := forall₂_split
          (R := fun m n => visitMember P text limit (depth + 1) m = .ok n)
          (S := fun n f => nodeMember n = some f) hfs fun m hm f _ hf => by
        have := membersDepth_le.1 (Nat.le_refl _) m hm
        obtain ⟨hk, hv⟩ := formMember_iff.1 hf
        obtain ⟨n, hn, hnf⟩ := (ih m hm hlt).2 ⟨hv, by omega⟩
        exact ⟨(f.1, n), visitMember_iff.2 ⟨hk, hn⟩, nodeMember_iff.2 ⟨rfl, hnf⟩⟩
      exact ⟨_, visit_obj.2 ⟨hlt, ns, hns, rfl⟩, nodeForm_object.2 ⟨fs, hforms, hdis, rfl⟩⟩

end

/-- **Acceptance.** A text is accepted when its value has a form and nests
within the limit, and what is written is the form's text. -/
theorem canonicalText_iff {P : Parser} {text out : List Char} :
    canonicalText P text = .ok out ↔ ∃ v f, P.parse text = some v ∧ form v = some f ∧
      v.depth ≤ maxCanonicalDepth ∧ out = f.print := by
  unfold canonicalText
  cases hp : P.parse text with
  | none => exact ⟨nofun, fun ⟨_, _, h, _⟩ => nomatch h⟩
  | some v =>
    show (visit P text maxCanonicalDepth 0 v).bind writeNode = .ok out ↔ _
    rw [bind_eq_ok]
    constructor
    · rintro ⟨n, hn, hw⟩
      obtain ⟨f, hf, rfl⟩ := (writeNode_iff n).1 hw
      obtain ⟨hform, hd⟩ := (visit_form v (Nat.zero_le _)).1 ⟨n, hn, hf⟩
      exact ⟨v, f, rfl, hform, hd, rfl⟩
    · rintro ⟨v', f, hv, hform, hd, rfl⟩
      cases hv
      obtain ⟨n, hn, hf⟩ : ∃ n, visit P text maxCanonicalDepth 0 v = .ok n ∧ n.form = some f :=
        (visit_form v (Nat.zero_le _)).2 ⟨hform, hd⟩
      exact ⟨n, hn, (writeNode_iff n).2 ⟨f, hf, rfl⟩⟩

/-! ## In-memory values -/

section

variable {α : Type}

theorem insertKey_perm (k : List Char) (v : α) {ms : List (List Char × α)}
    (h : k ∉ ms.map Prod.fst) : (insertKey k v ms).Perm ((k, v) :: ms) := by
  induction ms with
  | nil => exact .refl _
  | cons m ms ih =>
    obtain ⟨k', v'⟩ := m
    have hne : k ≠ k' := fun heq => h (heq ▸ List.mem_cons_self)
    rw [insertKey, if_neg hne]
    by_cases hle : keyLe k k' = true
    · rw [if_pos hle]
    · rw [if_neg hle]
      have := ih fun hmem => h (List.mem_cons_of_mem _ hmem)
      exact (this.cons _).trans (.swap _ _ _)

theorem sorted_insertKey (k : List Char) (v : α) {ms : List (List Char × α)} (hs : Sorted ms)
    (h : k ∉ ms.map Prod.fst) : Sorted (insertKey k v ms) := by
  induction ms with
  | nil => exact List.pairwise_singleton _ _
  | cons m ms ih =>
    obtain ⟨k', v'⟩ := m
    obtain ⟨hm, hms⟩ := List.pairwise_cons.1 hs
    have hne : k ≠ k' := fun heq => h (heq ▸ List.mem_cons_self)
    have hnot : k ∉ ms.map Prod.fst := fun hmem => h (List.mem_cons_of_mem _ hmem)
    rw [insertKey, if_neg hne]
    by_cases hle : keyLe k k' = true
    · rw [if_pos hle]
      refine List.pairwise_cons.2 ⟨fun n hn => ?_, hs⟩
      rcases List.mem_cons.1 hn with rfl | hn
      · exact hle
      · exact keyLe_trans hle (hm n hn)
    · rw [if_neg hle]
      refine List.pairwise_cons.2 ⟨fun n hn => ?_, ih hms hnot⟩
      rcases List.mem_cons.1 ((insertKey_perm k v hnot).subset hn) with rfl | hn
      · have := keyLe_total k k'
        rw [Bool.or_eq_true] at this
        exact this.resolve_left hle
      · exact hm n hn

/-- A map of distinct keys holds them in their order. -/
theorem toMap_eq {ms : List (List Char × α)} (hd : (ms.map Prod.fst).Nodup) :
    toMap ms = sortByKey ms := by
  have hgen : ∀ (ms acc : List (List Char × α)), Sorted acc → ((acc ++ ms).map Prod.fst).Nodup →
      Sorted (ms.foldl (fun acc m => insertKey m.1 m.2 acc) acc) ∧
        (ms.foldl (fun acc m => insertKey m.1 m.2 acc) acc).Perm (acc ++ ms) := by
    intro ms
    induction ms with
    | nil => exact fun acc hs _ => ⟨hs, by rw [List.append_nil]; exact .refl _⟩
    | cons m ms ih =>
      intro acc hs hn
      have hnot : m.1 ∉ acc.map Prod.fst := by
        rw [List.map_append, List.map_cons] at hn
        exact fun hmem => (List.nodup_append.1 hn).2.2 _ hmem _ List.mem_cons_self rfl
      have hp := insertKey_perm m.1 m.2 hnot
      have hp' : (insertKey m.1 m.2 acc ++ ms).Perm (acc ++ m :: ms) :=
        (hp.append_right ms).trans List.perm_middle.symm
      obtain ⟨h₁, h₂⟩ := ih _ (sorted_insertKey m.1 m.2 hs hnot) (nodup_keys_perm hp' hn)
      exact ⟨h₁, h₂.trans hp'⟩
  obtain ⟨hs, hp⟩ := hgen ms [] List.Pairwise.nil hd
  refine eq_of_sorted_perm ?_ hs (sorted_sortByKey ms) (nodup_keys_perm (sortByKey_perm ms) hd)
  exact hp.trans (sortByKey_perm ms).symm

end

theorem toSerdes_eq (ns : List Node) : toSerdes ns = ns.map Node.toSerde := by
  induction ns with
  | nil => rfl
  | cons n ns ih => rw [toSerdes, ih, List.map_cons]

theorem toSerdeMembers_eq (ms : List (List Char × Node)) :
    toSerdeMembers ms = ms.map fun m => (m.1, m.2.toSerde) := by
  induction ms with
  | nil => rfl
  | cons m ms ih => rw [toSerdeMembers, toSerdeMember, ih, List.map_cons]

theorem visitSerde_array {depth : ℕ} {vs : List Serde} {n : Node} :
    visitSerde depth (.array vs) = .ok n ↔ depth < maxCanonicalDepth ∧
      ∃ ns, List.Forall₂ (fun v n => visitSerde (depth + 1) v = .ok n) vs ns ∧ n = .array ns := by
  rw [visitSerde, bind_eq_ok]
  constructor
  · rintro ⟨inner, hin, h⟩
    obtain ⟨hlt, rfl⟩ := enter_eq_ok.1 hin
    obtain ⟨ns, hns, rfl⟩ := map_eq_ok.1 h
    exact ⟨hlt, ns, (except_reads_iff (F := visitSerdes _) rfl fun _ _ => rfl).1 hns, rfl⟩
  · rintro ⟨hlt, ns, hns, rfl⟩
    refine ⟨_, enter_eq_ok.2 ⟨hlt, rfl⟩, map_eq_ok.2 ⟨ns, ?_, rfl⟩⟩
    exact (except_reads_iff (F := visitSerdes _) rfl fun _ _ => rfl).2 hns

theorem visitSerdeMember_iff {inner : ℕ} {m : List Char × Serde} {n : List Char × Node} :
    visitSerdeMember inner m = .ok n ↔ m.1 = n.1 ∧ visitSerde inner m.2 = .ok n.2 := by
  obtain ⟨k, v⟩ := m
  obtain ⟨key, x⟩ := n
  rw [visitSerdeMember, map_eq_ok]
  constructor
  · rintro ⟨x', hx, heq⟩
    cases heq
    exact ⟨rfl, hx⟩
  · rintro ⟨rfl, hx⟩
    exact ⟨x, hx, rfl⟩

theorem visitSerde_object {depth : ℕ} {ms : List (List Char × Serde)} {n : Node} :
    visitSerde depth (.object ms) = .ok n ↔ depth < maxCanonicalDepth ∧
      ∃ ns, List.Forall₂ (fun m n => visitSerdeMember (depth + 1) m = .ok n) ms ns ∧
        n = .object ns := by
  rw [visitSerde, bind_eq_ok]
  constructor
  · rintro ⟨inner, hin, h⟩
    obtain ⟨hlt, rfl⟩ := enter_eq_ok.1 hin
    obtain ⟨ns, hns, rfl⟩ := map_eq_ok.1 h
    exact ⟨hlt, ns, (except_reads_iff (F := visitSerdeMembers _) rfl fun _ _ => rfl).1 hns, rfl⟩
  · rintro ⟨hlt, ns, hns, rfl⟩
    refine ⟨_, enter_eq_ok.2 ⟨hlt, rfl⟩, map_eq_ok.2 ⟨ns, ?_, rfl⟩⟩
    exact (except_reads_iff (F := visitSerdeMembers _) rfl fun _ _ => rfl).2 hns

/-- Sorting members keeps them beside their forms. -/
theorem sorted_forms {ms : List (List Char × Node)} {fs : List (List Char × Form)}
    (h : List.Forall₂ (fun m f => nodeMember m = some f) ms fs) :
    List.Forall₂ (fun m f => nodeMember m = some f) (sortByKey ms) (sortByKey fs) := by
  -- the form of a member is a function of its node, and sorting leaves nodes alone
  have hmap : ms.map (fun m => (m.1, m.2.form.getD (.bool true))) = fs.map id := by
    refine map_eq_of_forall₂ (h.imp fun m f hf => ?_)
    obtain ⟨hk, hn⟩ := nodeMember_iff.1 hf
    rw [hk, hn]
    rfl
  rw [List.map_id] at hmap
  rw [← hmap, ← map_sortByKey fun n : Node => n.form.getD (.bool true)]
  refine forall₂_map_self fun m hm => ?_
  obtain ⟨f, -, hf⟩ := forall₂_exists_right h ((sortByKey_perm ms).subset hm)
  obtain ⟨-, hn⟩ := nodeMember_iff.1 hf
  rw [nodeMember_iff, hn]
  exact ⟨rfl, rfl⟩

/-- **The in-memory value** of a node that has a form is read back to a node
of that form. -/
theorem visitSerde_form (n : Node) : ∀ {depth : ℕ} {f : Form}, n.form = some f →
    f.toValue.depth + depth ≤ maxCanonicalDepth →
    ∃ n', visitSerde depth n.toSerde = .ok n' ∧ n'.form = some f := by
  induction n using Node.ind with
  | null | float v => nofun
  | bool b | unsigned v | signed v | string s => exact fun hf _ => ⟨_, rfl, hf⟩
  | array ns ih =>
    intro depth f hf hd
    obtain ⟨fs, hfs, rfl⟩ := nodeForm_array.1 hf
    rw [Form.toValue, Value.depth, toValues_eq] at hd
    have hlt : depth < maxCanonicalDepth := by omega
    have hdeep := itemsDepth_le.1 (Nat.le_refl (itemsDepth (fs.map Form.toValue)))
    obtain ⟨ns', hns, hforms⟩ := forall₂_split
        (R := fun n n' => visitSerde (depth + 1) n.toSerde = .ok n')
        (S := fun n f => Node.form n = some f) hfs fun n hn f hmem hf => by
      have := hdeep _ (List.mem_map_of_mem hmem)
      exact ih n hn hf (by omega)
    refine ⟨_, ?_, nodeForm_array.2 ⟨fs, hforms, rfl⟩⟩
    rw [Node.toSerde, toSerdes_eq, visitSerde_array]
    exact ⟨hlt, ns', List.forall₂_map_left_iff.2 hns, rfl⟩
  | object ms ih =>
    intro depth f hf hd
    obtain ⟨fs, hfs, hdis, rfl⟩ := nodeForm_object.1 hf
    rw [Form.toValue, Value.depth, toMembers_eq] at hd
    have hlt : depth < maxCanonicalDepth := by omega
    have hdeep := membersDepth_le.1 (Nat.le_refl (membersDepth ((sortByKey fs).map toMember)))
    have hkeys : ms.map Prod.fst = fs.map Prod.fst :=
      map_eq_of_forall₂ (hfs.imp fun m f hf => (nodeMember_iff.1 hf).1)
    obtain ⟨ns, hns, hforms⟩ := forall₂_split
        (R := fun m n => visitSerdeMember (depth + 1) (m.1, m.2.toSerde) = .ok n)
        (S := fun n f => nodeMember n = some f) (sorted_forms hfs) fun m hm f hmem hf => by
      obtain ⟨hk, hf⟩ := nodeMember_iff.1 hf
      have hle : f.2.toValue.depth ≤ _ := toMember_eq f ▸ hdeep _ (List.mem_map_of_mem hmem)
      have hlim : f.2.toValue.depth + (depth + 1) ≤ maxCanonicalDepth := by omega
      obtain ⟨n, hn, hnf⟩ := ih m ((sortByKey_perm ms).subset hm) hf hlim
      exact ⟨(m.1, n), visitSerdeMember_iff.2 ⟨rfl, hn⟩, nodeMember_iff.2 ⟨hk, hnf⟩⟩
    refine ⟨.object ns, ?_, nodeForm_object.2 ⟨sortByKey fs, hforms, ?_, ?_⟩⟩
    · rw [Node.toSerde, toSerdeMembers_eq, toMap_eq, ← map_sortByKey, visitSerde_object]
      · exact ⟨hlt, ns, List.forall₂_map_left_iff.2 hns, rfl⟩
      · rw [List.map_map]
        exact hkeys ▸ hdis
    · exact nodup_keys_perm (sortByKey_perm fs) hdis
    · rw [sortByKey_of_sorted (sorted_sortByKey fs)]

/-! ## Values as they are compared -/

/-- An integer written without fraction or exponent, not `-0`, of absolute
value at most 2^53 - 1. -/
def SafeInteger (l : List Char) : Prop :=
  ∃ n : Number, n.text = l ∧ n.frac = none ∧ n.exp = none ∧ ¬(n.neg = true ∧ n.value = 0) ∧
    |n.value| ≤ 2 ^ 53 - 1

mutual

/-- What an accepted text may hold. -/
def Canonical : Value → Prop
  | .null => False
  | .bool _ => True
  | .num l => SafeInteger l
  | .str s => ∀ p ∈ s, p.isValidChar
  | .arr vs => CanonicalItems vs
  | .obj ms => (ms.map Prod.fst).Nodup ∧ CanonicalMembers ms

def CanonicalItems : List Value → Prop
  | [] => True
  | v :: vs => Canonical v ∧ CanonicalItems vs

def CanonicalMembers : List (List ℕ × Value) → Prop
  | [] => True
  | m :: ms => CanonicalMember m ∧ CanonicalMembers ms

def CanonicalMember : List ℕ × Value → Prop
  | (k, v) => (∀ p ∈ k, p.isValidChar) ∧ Canonical v

end

/-- Two lexemes of one number. -/
def SameNumber (a b : List Char) : Prop :=
  ∃ m n : Number, m.text = a ∧ n.text = b ∧ m.value = n.value

mutual

/-- Values that are equal, with numbers compared by their value and objects
as finite maps: the same keys, and the same value under each of them. -/
def Same : Value → Value → Prop
  | .null, .null => True
  | .bool a, .bool b => a = b
  | .num a, .num b => SameNumber a b
  | .str a, .str b => a = b
  | .arr vs, .arr ws => SameItems vs ws
  | .obj ms, .obj ns => SameMembers ms ns ∧ ∀ k ∈ ns.map Prod.fst, k ∈ ms.map Prod.fst
  | _, _ => False
termination_by structural v => v

def SameItems : List Value → List Value → Prop
  | [], [] => True
  | v :: vs, w :: ws => Same v w ∧ SameItems vs ws
  | _, _ => False
termination_by structural vs => vs

/-- Every member is among the others. -/
def SameMembers : List (List ℕ × Value) → List (List ℕ × Value) → Prop
  | [], _ => True
  | m :: ms, ns => SameMember m ns ∧ SameMembers ms ns
termination_by structural ms => ms

def SameMember : List ℕ × Value → List (List ℕ × Value) → Prop
  | (k, v), ns => ∃ n ∈ ns, n.1 = k ∧ Same v n.2
termination_by structural m => m

end

theorem canonicalItems_iff {vs : List Value} : CanonicalItems vs ↔ ∀ v ∈ vs, Canonical v := by
  induction vs with
  | nil => simp [CanonicalItems]
  | cons v vs ih => rw [CanonicalItems, ih, List.forall_mem_cons]

theorem canonicalMembers_iff {ms : List (List ℕ × Value)} :
    CanonicalMembers ms ↔ ∀ m ∈ ms, (∀ p ∈ m.1, p.isValidChar) ∧ Canonical m.2 := by
  induction ms with
  | nil => simp [CanonicalMembers]
  | cons m ms ih => rw [CanonicalMembers, CanonicalMember, ih, List.forall_mem_cons]

theorem sameItems_iff {vs ws : List Value} : SameItems vs ws ↔ List.Forall₂ Same vs ws := by
  induction vs generalizing ws with
  | nil =>
    cases ws with
    | nil => exact ⟨fun _ => .nil, fun _ => trivial⟩
    | cons w ws => exact ⟨False.elim, nofun⟩
  | cons v vs ih =>
    cases ws with
    | nil => exact ⟨False.elim, nofun⟩
    | cons w ws => rw [SameItems, ih, List.forall₂_cons]

theorem sameMembers_iff {ms ns : List (List ℕ × Value)} :
    SameMembers ms ns ↔ ∀ m ∈ ms, ∃ n ∈ ns, n.1 = m.1 ∧ Same m.2 n.2 := by
  induction ms with
  | nil => simp [SameMembers]
  | cons m ms ih => rw [SameMembers, SameMember, ih, List.forall_mem_cons]

/-! ## Numbers of a text -/

mutual

/-- Every number is one of the grammar. -/
def Numbered : Value → Prop
  | .num l => IsNumber l
  | .arr vs => NumberedItems vs
  | .obj ms => NumberedMembers ms
  | _ => True

def NumberedItems : List Value → Prop
  | [] => True
  | v :: vs => Numbered v ∧ NumberedItems vs

def NumberedMembers : List (List ℕ × Value) → Prop
  | [] => True
  | m :: ms => NumberedMember m ∧ NumberedMembers ms

def NumberedMember : List ℕ × Value → Prop
  | (_, v) => Numbered v

end

theorem numberedItems_iff {vs : List Value} : NumberedItems vs ↔ ∀ v ∈ vs, Numbered v := by
  induction vs with
  | nil => simp [NumberedItems]
  | cons v vs ih => rw [NumberedItems, ih, List.forall_mem_cons]

theorem numberedMembers_iff {ms : List (List ℕ × Value)} :
    NumberedMembers ms ↔ ∀ m ∈ ms, Numbered m.2 := by
  induction ms with
  | nil => simp [NumberedMembers]
  | cons m ms ih => rw [NumberedMembers, NumberedMember, ih, List.forall_mem_cons]

def NumberedPiece : Piece → Prop
  | .value v => Numbered v
  | .items vs => NumberedItems vs
  | .members ms => NumberedMembers ms

theorem numbered_of_derives {t r : List Char} {p : Piece} (h : Derives t p r) :
    NumberedPiece p := by
  induction h with
  | null | true | false | str | emptyArr | emptyObj => trivial
  | num n r => exact ⟨n, rfl⟩
  | arr _ ih | obj _ ih => exact ih
  | lastItem _ _ _ ih => exact ⟨ih, trivial⟩
  | item _ _ _ _ ih ih' => exact ⟨ih, ih'⟩
  | lastMember _ _ _ _ _ _ ih => exact ⟨ih, trivial⟩
  | member _ _ _ _ _ _ _ ih ih' => exact ⟨ih, ih'⟩

theorem numbered_of_text {t : List Char} {v : Value} (h : Json.Text t v) : Numbered v := by
  obtain ⟨t₁, t₂, -, hd, -⟩ := h
  exact numbered_of_derives hd

theorem frac_exp_of_plain {n : Number} (h : isFloating n.text = false) :
    n.frac = none ∧ n.exp = none := by
  unfold isFloating at h
  rw [List.any_eq_false] at h
  constructor
  · cases hf : n.frac with
    | none => rfl
    | some f =>
      have hmem : '.' ∈ n.text := by
        unfold Number.text Number.fracText
        rw [hf]
        simp
      exact absurd (by decide) (h '.' hmem)
  · cases he : n.exp with
    | none => rfl
    | some e =>
      obtain ⟨letter, sign, ds⟩ := e
      have hmem : letter ∈ n.text := by
        unfold Number.text Number.expText
        rw [he]
        simp
      have hl := h letter hmem
      rcases n.exp_letter _ he with rfl | rfl <;> exact absurd (by decide) hl

/-- The integer of a number without fraction and exponent. -/
theorem integer_text {n : Number} (hf : n.frac = none) (he : n.exp = none) :
    integer n.text =
      if n.neg = true ∧ decimal n.int = 0 ∨ maxInteger < decimal n.int then none
      else some (if n.neg then -(decimal n.int : ℤ) else (decimal n.int : ℤ)) := by
  rw [Number.text_int hf he]
  cases hn : n.neg with
  | true =>
    simp only [if_true, true_and]
    exact integer_minus n.int_run.2
  | false =>
    simp only [Bool.false_eq_true, if_false, false_and, false_or]
    exact integer_digits n.int_run.2

/-- What `integer` says of a number. -/
theorem integer_number {n : Number} {z : ℤ} (h : integer n.text = some z) :
    n.frac = none ∧ n.exp = none ∧ ¬(n.neg = true ∧ decimal n.int = 0) ∧
      decimal n.int ≤ maxInteger ∧ n.value = z := by
  have hplain : isFloating n.text = false := by
    by_contra hf
    rw [Bool.not_eq_false] at hf
    rw [show integer n.text = none from if_pos hf] at h
    cases h
  obtain ⟨hf, he⟩ := frac_exp_of_plain hplain
  rw [integer_text hf he] at h
  split_ifs at h with hcond hneg
  all_goals
    cases h
    rw [Number.value_int hf he]
    refine ⟨hf, he, fun h => hcond (.inl h), Nat.le_of_not_lt fun h => hcond (.inr h), ?_⟩
    simp [hneg]

theorem value_eq_zero {n : Number} (hf : n.frac = none) (he : n.exp = none) :
    n.value = 0 ↔ decimal n.int = 0 := by
  rw [Number.value_int hf he]
  cases n.neg <;> simp

theorem abs_value_le {n : Number} (hf : n.frac = none) (he : n.exp = none) :
    |n.value| ≤ 2 ^ 53 - 1 ↔ decimal n.int ≤ maxInteger := by
  have habs : |n.value| = (decimal n.int : ℚ) := by
    rw [Number.value_int hf he]
    cases n.neg <;> simp
  rw [habs, show (2 : ℚ) ^ 53 - 1 = (maxInteger : ℕ) by norm_num [maxInteger], Nat.cast_le]

theorem safeInteger_iff {l : List Char} (hl : IsNumber l) :
    (∃ z, integer l = some z) ↔ SafeInteger l := by
  constructor
  · rintro ⟨z, hz⟩
    obtain ⟨n, rfl⟩ := hl
    obtain ⟨hf, he, hnz, hle, -⟩ := integer_number hz
    refine ⟨n, rfl, hf, he, ?_, (abs_value_le hf he).2 hle⟩
    rw [value_eq_zero hf he]
    exact hnz
  · rintro ⟨n, rfl, hf, he, hnz, hle⟩
    rw [value_eq_zero hf he] at hnz
    rw [abs_value_le hf he] at hle
    refine ⟨_, (integer_text hf he).trans (if_neg ?_)⟩
    rintro (h | h)
    · exact hnz h
    · omega

theorem sameNumber_iff {a b : List Char} {y z : ℤ} (ha : IsNumber a) (hb : IsNumber b)
    (hy : integer a = some y) (hz : integer b = some z) : SameNumber a b ↔ y = z := by
  constructor
  · rintro ⟨m, n, rfl, rfl, heq⟩
    rw [(integer_number hy).2.2.2.2, (integer_number hz).2.2.2.2] at heq
    exact_mod_cast heq
  · rintro rfl
    obtain ⟨m, rfl⟩ := ha
    obtain ⟨n, rfl⟩ := hb
    refine ⟨m, n, rfl, rfl, ?_⟩
    rw [(integer_number hy).2.2.2.2, (integer_number hz).2.2.2.2]

/-! ## The form decides -/

theorem isValid_of_scalars {s : List ℕ} : (∃ cs, scalars s = some cs) ↔ ∀ p ∈ s, p.isValidChar := by
  induction s with
  | nil => exact ⟨fun _ => nofun, fun _ => ⟨[], rfl⟩⟩
  | cons n ns ih =>
    rw [List.forall_mem_cons, ← ih]
    constructor
    · rintro ⟨cs, hcs⟩
      rw [scalars] at hcs
      split_ifs at hcs with hn
      obtain ⟨ds, hds, -⟩ := Option.map_eq_some_iff.1 hcs
      exact ⟨hn, ds, hds⟩
    · rintro ⟨hn, ds, hds⟩
      exact ⟨_, by rw [scalars, dif_pos hn, hds, Option.map_some]⟩

/-- Keys are told apart as code points and as characters alike. -/
theorem nodup_keys_iff {ms : List (List ℕ × Value)} {fs : List (List Char × Form)}
    (h : List.Forall₂ (fun m f => formMember m = some f) ms fs) :
    (ms.map Prod.fst).Nodup ↔ (fs.map Prod.fst).Nodup := by
  have hmap : ms.map Prod.fst = (fs.map Prod.fst).map (List.map Char.toNat) := by
    rw [List.map_map]
    exact map_eq_of_forall₂ (h.imp fun m f hf => scalars_eq_some.1 (formMember_iff.1 hf).1)
  rw [hmap]
  refine List.nodup_map_iff (List.map_injective_iff.2 fun a b h => Char.toNat_inj.1 h)

/-- **A value has a form** exactly when it holds what an accepted text may
hold. -/
theorem canonical_iff {v : Value} (hv : Numbered v) : (∃ f, form v = some f) ↔ Canonical v := by
  induction v using Value.ind with
  | null =>
    constructor
    · rintro ⟨_, h⟩
      cases h
    · exact False.elim
  | bool b => exact ⟨fun _ => trivial, fun _ => ⟨_, rfl⟩⟩
  | num l =>
    rw [Canonical, ← safeInteger_iff hv, form]
    constructor
    · rintro ⟨_, h⟩
      exact (Option.map_eq_some_iff.1 h).imp fun _ h => h.1
    · rintro ⟨z, hz⟩
      exact ⟨.int z, by rw [hz]; rfl⟩
  | str s =>
    rw [Canonical, ← isValid_of_scalars, form]
    constructor
    · rintro ⟨_, h⟩
      exact (Option.map_eq_some_iff.1 h).imp fun _ h => h.1
    · rintro ⟨cs, hcs⟩
      exact ⟨.str cs, by rw [hcs]; rfl⟩
  | arr vs ih =>
    have hnum := numberedItems_iff.1 hv
    rw [Canonical, canonicalItems_iff]
    constructor
    · rintro ⟨f, hf⟩ v hmem
      obtain ⟨fs, hfs, -⟩ := form_arr.1 hf
      obtain ⟨f, -, hf⟩ := forall₂_exists_right hfs hmem
      exact (ih v hmem (hnum v hmem)).1 ⟨f, hf⟩
    · intro hall
      obtain ⟨fs, hfs⟩ := exists_forall₂ fun v hmem => (ih v hmem (hnum v hmem)).2 (hall v hmem)
      exact ⟨_, form_arr.2 ⟨fs, hfs, rfl⟩⟩
  | obj ms ih =>
    have hnum := numberedMembers_iff.1 hv
    rw [Canonical, canonicalMembers_iff]
    constructor
    · rintro ⟨f, hf⟩
      obtain ⟨fs, hfs, hd, -⟩ := form_obj.1 hf
      refine ⟨(nodup_keys_iff hfs).2 hd, fun m hmem => ?_⟩
      obtain ⟨f, -, hf⟩ := forall₂_exists_right hfs hmem
      obtain ⟨hk, hv⟩ := formMember_iff.1 hf
      exact ⟨isValid_of_scalars.1 ⟨_, hk⟩, (ih m hmem (hnum m hmem)).1 ⟨_, hv⟩⟩
    · rintro ⟨hd, hall⟩
      have hex : ∀ m ∈ ms, ∃ f, formMember m = some f := by
        intro m hmem
        obtain ⟨hk, hc⟩ := hall m hmem
        obtain ⟨key, hkey⟩ := isValid_of_scalars.2 hk
        obtain ⟨f, hf⟩ := (ih m hmem (hnum m hmem)).2 hc
        exact ⟨(key, f), formMember_iff.2 ⟨hkey, hf⟩⟩
      obtain ⟨fs, hfs⟩ := exists_forall₂ hex
      exact ⟨_, form_obj.2 ⟨fs, hfs, (nodup_keys_iff hfs).1 hd, rfl⟩⟩

section

variable {w : Value}

theorem form_eq_bool {b : Bool} (h : form w = some (.bool b)) : w = .bool b := by
  cases w <;> simp_all [form, Option.bind_eq_some_iff, ofMembers_eq_some]

theorem form_eq_int {z : ℤ} (h : form w = some (.int z)) : ∃ l, w = .num l ∧ integer l = some z := by
  cases w <;> simp_all [form, Option.bind_eq_some_iff, ofMembers_eq_some]

theorem form_eq_str {s : List Char} (h : form w = some (.str s)) : w = .str (s.map Char.toNat) := by
  cases w <;> simp_all [form, Option.bind_eq_some_iff, ofMembers_eq_some, scalars_eq_some]

theorem form_eq_arr {fs : List Form} (h : form w = some (.arr fs)) :
    ∃ ws, w = .arr ws ∧ List.Forall₂ (fun v f => form v = some f) ws fs := by
  cases w <;> simp_all [form, Option.bind_eq_some_iff, ofMembers_eq_some, formItems_iff]

theorem form_eq_obj {fs : List (List Char × Form)} (h : form w = some (.obj fs)) :
    ∃ ms gs, w = .obj ms ∧ List.Forall₂ (fun m f => formMember m = some f) ms gs ∧
      (gs.map Prod.fst).Nodup ∧ fs = sortByKey gs := by
  cases w <;> simp_all [form, Option.bind_eq_some_iff, ofMembers_eq_some, formMembers_iff]

theorem same_bool {b : Bool} : Same (.bool b) w ↔ w = .bool b := by
  cases w <;> simp [Same, eq_comm]

theorem same_num {a : List Char} : Same (.num a) w ↔ ∃ b, w = .num b ∧ SameNumber a b := by
  cases w <;> simp [Same]

theorem same_str {s : List ℕ} : Same (.str s) w ↔ w = .str s := by
  cases w <;> simp [Same, eq_comm]

theorem same_arr {vs : List Value} : Same (.arr vs) w ↔ ∃ ws, w = .arr ws ∧ List.Forall₂ Same vs ws := by
  cases w <;> simp [Same, sameItems_iff]

theorem same_obj {ms : List (List ℕ × Value)} : Same (.obj ms) w ↔ ∃ ns, w = .obj ns ∧
    (∀ m ∈ ms, ∃ n ∈ ns, n.1 = m.1 ∧ Same m.2 n.2) ∧ ∀ k ∈ ns.map Prod.fst, k ∈ ms.map Prod.fst := by
  cases w <;> simp [Same, sameMembers_iff]

end

/-- Objects with the same forms under the same keys. -/
theorem perm_forms {fs gs : List (List Char × Form)} (hf : (fs.map Prod.fst).Nodup)
    (hg : (gs.map Prod.fst).Nodup) (hsub : ∀ f ∈ fs, f ∈ gs)
    (hkeys : ∀ k ∈ gs.map Prod.fst, k ∈ fs.map Prod.fst) : fs.Perm gs := by
  refine (List.perm_ext_iff_of_nodup hf.of_map hg.of_map).2 fun x => ⟨hsub x, fun hx => ?_⟩
  obtain ⟨k, g⟩ := x
  obtain ⟨⟨k', f⟩, hmem, hk⟩ := List.mem_map.1 (hkeys k (List.mem_map_of_mem hx))
  cases hk
  rw [eq_of_mem_key hg hx (hsub _ hmem)]
  exact hmem

/-- **Equal values** have one form. -/
theorem same_iff {v : Value} : ∀ {w : Value} {f g : Form}, Numbered v → Numbered w →
    form v = some f → form w = some g → (Same v w ↔ f = g) := by
  induction v using Value.ind with
  | null => nofun
  | bool b =>
    intro w f g _ _ hf hg
    cases hf
    rw [same_bool]
    constructor
    · rintro rfl
      cases hg
      rfl
    · rintro rfl
      exact form_eq_bool hg
  | num l =>
    intro w f g hv hw hf hg
    obtain ⟨y, hy, rfl⟩ := Option.map_eq_some_iff.1 hf
    rw [same_num]
    constructor
    · rintro ⟨b, rfl, hb⟩
      obtain ⟨z, hz, rfl⟩ := Option.map_eq_some_iff.1 hg
      rw [(sameNumber_iff hv hw hy hz).1 hb]
    · rintro rfl
      obtain ⟨b, rfl, hz⟩ := form_eq_int hg
      exact ⟨b, rfl, (sameNumber_iff hv hw hy hz).2 rfl⟩
  | str s =>
    intro w f g _ _ hf hg
    obtain ⟨cs, hcs, rfl⟩ := Option.map_eq_some_iff.1 hf
    rw [same_str]
    constructor
    · rintro rfl
      exact Option.some.inj (hf.symm.trans hg)
    · rintro rfl
      rw [form_eq_str hg, scalars_eq_some.1 hcs]
  | arr vs ih =>
    intro w f g hv hw hf hg
    have hnv := numberedItems_iff.1 hv
    obtain ⟨fs, hfs, rfl⟩ := form_arr.1 hf
    rw [same_arr]
    constructor
    · rintro ⟨ws, rfl, hsame⟩
      have hnw := numberedItems_iff.1 hw
      obtain ⟨gs, hgs, rfl⟩ := form_arr.1 hg
      have hvg : List.Forall₂ (fun v g => ∀ f, form v = some f → f = g) vs gs :=
        forall₂_comp hsame hgs fun v hv w hw g hs hg f hf =>
          (ih v hv (hnv v hv) (hnw w hw) hf hg).1 hs
      have hfg : List.Forall₂ Eq fs gs :=
        forall₂_comp hfs.flip hvg fun f _ v _ g hf hg => hg f hf
      rw [List.forall₂_eq_eq_eq] at hfg
      rw [hfg]
    · rintro rfl
      obtain ⟨ws, rfl, hgs⟩ := form_eq_arr hg
      have hnw := numberedItems_iff.1 hw
      refine ⟨ws, rfl, ?_⟩
      have hfw : List.Forall₂ (fun f w => Numbered w ∧ form w = some f) fs ws :=
        (forall₂_imp_mem hgs fun w hw f _ hf => ⟨hnw w hw, hf⟩).flip
      exact forall₂_comp hfs hfw fun v hv f _ w hf hw => (ih v hv (hnv v hv) hw.1 hf hw.2).2 rfl
  | obj ms ih =>
    intro w f g hv hw hf hg
    have hnv := numberedMembers_iff.1 hv
    obtain ⟨fs, hfs, hdf, rfl⟩ := form_obj.1 hf
    rw [same_obj]
    constructor
    · rintro ⟨ns, rfl, hsame, hkeys⟩
      have hnw := numberedMembers_iff.1 hw
      obtain ⟨gs, hgs, hdg, rfl⟩ := form_obj.1 hg
      rw [sortByKey_congr (perm_forms hdf hdg ?_ ?_) hdg]
      · -- a member's counterpart has its key and, by induction, its form
        intro f hmem
        obtain ⟨m, hm, hf⟩ := forall₂_exists_left hfs hmem
        obtain ⟨n, hn, hk, hs⟩ := hsame m hm
        obtain ⟨g, hmg, hg⟩ := forall₂_exists_right hgs hn
        obtain ⟨hkf, hf⟩ := formMember_iff.1 hf
        obtain ⟨hkg, hg⟩ := formMember_iff.1 hg
        rw [hk, hkf] at hkg
        have heq : f = g := Prod.ext (Option.some.inj hkg)
          ((ih m hm (hnv m hm) (hnw n hn) hf hg).1 hs)
        rw [heq]
        exact hmg
      · intro k hk
        obtain ⟨g, hmg, rfl⟩ := List.mem_map.1 hk
        obtain ⟨n, hn, hg⟩ := forall₂_exists_left hgs hmg
        obtain ⟨m, hm, hmk⟩ := List.mem_map.1 (hkeys n.1 (List.mem_map_of_mem hn))
        obtain ⟨f, hmf, hf⟩ := forall₂_exists_right hfs hm
        have hkf := (formMember_iff.1 hf).1
        rw [hmk, (formMember_iff.1 hg).1] at hkf
        rw [Option.some.inj hkf]
        exact List.mem_map_of_mem hmf
    · rintro rfl
      obtain ⟨ns, gs, rfl, hgs, hdg, heq⟩ := form_eq_obj hg
      have hnw := numberedMembers_iff.1 hw
      have hperm : fs.Perm gs :=
        (sortByKey_perm fs).symm.trans (heq ▸ sortByKey_perm gs)
      refine ⟨ns, rfl, fun m hm => ?_, fun k hk => ?_⟩
      · obtain ⟨f, hmf, hf⟩ := forall₂_exists_right hfs hm
        obtain ⟨n, hn, hg⟩ := forall₂_exists_left hgs (hperm.subset hmf)
        obtain ⟨hkf, hf⟩ := formMember_iff.1 hf
        obtain ⟨hkg, hg⟩ := formMember_iff.1 hg
        refine ⟨n, hn, ?_, (ih m hm (hnv m hm) (hnw n hn) hf hg).2 rfl⟩
        rw [scalars_eq_some.1 hkf, scalars_eq_some.1 hkg]
      · obtain ⟨n, hn, rfl⟩ := List.mem_map.1 hk
        obtain ⟨f, hmg, hg⟩ := forall₂_exists_right hgs hn
        obtain ⟨m, hm, hf⟩ := forall₂_exists_left hfs (hperm.symm.subset hmg)
        rw [scalars_eq_some.1 (formMember_iff.1 hg).1, ← scalars_eq_some.1 (formMember_iff.1 hf).1]
        exact List.mem_map_of_mem hm

/-! ## The canonical bytes -/

/-- A parser that reads JSON, and keeps repeated keys and number lexemes. -/
def Parser.Correct (P : Parser) : Prop := ∀ t v, P.parse t = some v ↔ Json.Text t v

theorem canonicalize_iff {P : Parser} {t : List Char} {b : List UInt8} :
    canonicalize P t = .ok b ↔ ∃ out, canonicalText P t = .ok out ∧ utf8 out = b := by
  unfold canonicalize
  exact map_eq_ok

/-- **Canonical JSON.** What is accepted is written as JSON text that is its
own canonical form, and the in-memory value of the text has it too; accepted
texts share their bytes exactly when their values are equal; and a text is
accepted exactly when its value may be and nests at most 64 deep. -/
theorem canonical_form_unique (P : Parser) (hP : P.Correct) :
    (∀ t b, canonicalize P t = .ok b →
      (∃ out v, utf8 out = b ∧ Json.Text out v ∧ canonicalize P out = .ok b) ∧
      ∃ s, parsedValue P t = .ok s ∧ canonicalizeValue s = .ok b) ∧
    (∀ t₁ t₂ v₁ v₂ b₁ b₂, P.parse t₁ = some v₁ → P.parse t₂ = some v₂ →
      canonicalize P t₁ = .ok b₁ → canonicalize P t₂ = .ok b₂ → (b₁ = b₂ ↔ Same v₁ v₂)) ∧
    ∀ t, (∃ b, canonicalize P t = .ok b) ↔
      ∃ v, P.parse t = some v ∧ Canonical v ∧ v.depth ≤ 64 := by
  refine ⟨fun t b h => ⟨?_, ?_⟩, ?_, fun t => ?_⟩
  · obtain ⟨out, hout, rfl⟩ := canonicalize_iff.1 h
    obtain ⟨v, f, hp, hf, hd, rfl⟩ := canonicalText_iff.1 hout
    refine ⟨f.print, f.toValue, rfl, f.print_text, canonicalize_iff.2 ⟨f.print, ?_, rfl⟩⟩
    exact canonicalText_iff.2 ⟨f.toValue, f, (hP _ _).2 f.print_text, form_toValue hf,
      (depth_toValue hf).trans hd, rfl⟩
  · obtain ⟨out, hout, rfl⟩ := canonicalize_iff.1 h
    obtain ⟨v, f, hp, hf, hd, rfl⟩ := canonicalText_iff.1 hout
    -- the parser's own limit is above the canonical one
    obtain ⟨n, hn, hnf⟩ : ∃ n, visit P t parserDepth 0 v = .ok n ∧ n.form = some f :=
      (visit_form v (Nat.zero_le _)).2 ⟨hf, hd.trans (by decide)⟩
    obtain ⟨n', hn', hnf'⟩ : ∃ n', visitSerde 0 n.toSerde = .ok n' ∧ n'.form = some f :=
      visitSerde_form n hnf ((depth_toValue hf).trans hd)
    refine ⟨n.toSerde, ?_, ?_⟩
    · unfold parsedValue
      rw [hp]
      exact map_eq_ok.2 ⟨n, hn, rfl⟩
    · unfold canonicalizeValue
      refine map_eq_ok.2 ⟨f.print, bind_eq_ok.2 ⟨n', hn', ?_⟩, rfl⟩
      exact (writeNode_iff n').2 ⟨f, hnf', rfl⟩
  · intro t₁ t₂ v₁ v₂ b₁ b₂ hp₁ hp₂ h₁ h₂
    obtain ⟨out₁, hout₁, rfl⟩ := canonicalize_iff.1 h₁
    obtain ⟨out₂, hout₂, rfl⟩ := canonicalize_iff.1 h₂
    obtain ⟨w₁, f₁, hw₁, hf₁, hd₁, rfl⟩ := canonicalText_iff.1 hout₁
    obtain ⟨w₂, f₂, hw₂, hf₂, hd₂, rfl⟩ := canonicalText_iff.1 hout₂
    cases hp₁.symm.trans hw₁
    cases hp₂.symm.trans hw₂
    rw [same_iff (numbered_of_text ((hP _ _).1 hp₁)) (numbered_of_text ((hP _ _).1 hp₂)) hf₁ hf₂]
    constructor
    · -- one text is read as one value, which has one form
      intro heq
      have hprint := utf8_injective heq
      have hv : some f₁.toValue = some f₂.toValue := by
        rw [← (hP _ _).2 f₁.print_text, ← (hP _ _).2 f₂.print_text, hprint]
      have hform := form_toValue hf₁
      rw [Option.some.inj hv, form_toValue hf₂] at hform
      exact (Option.some.inj hform).symm
    · rintro rfl
      rfl
  · constructor
    · rintro ⟨b, hb⟩
      obtain ⟨out, hout, -⟩ := canonicalize_iff.1 hb
      obtain ⟨v, f, hp, hf, hd, -⟩ := canonicalText_iff.1 hout
      exact ⟨v, hp, (canonical_iff (numbered_of_text ((hP _ _).1 hp))).1 ⟨f, hf⟩, hd⟩
    · rintro ⟨v, hp, hc, hd⟩
      obtain ⟨f, hf⟩ := (canonical_iff (numbered_of_text ((hP _ _).1 hp))).2 hc
      exact ⟨_, canonicalize_iff.2 ⟨f.print, canonicalText_iff.2 ⟨v, f, hp, hf, hd, rfl⟩, rfl⟩⟩

/-- The grammar's own parser in the package's place. It makes no doubles. -/
def reference : Parser where
  parse := Json.parse
  double _ := none
  message _ := "expected value"
  place _ := "at line 1 column 1"

theorem reference_correct : reference.Correct := fun _ _ => parse_iff

theorem canonical_form_unique_array :
    reference.Correct ∧ canonicalize reference ['[', ' ', '1', ']'] = .ok [91, 49, 93] ∧
      ∃ out v, utf8 out = [91, 49, 93] ∧ Json.Text out v ∧ canonicalize reference out = .ok [91, 49, 93] :=
  have h : canonicalize reference ['[', ' ', '1', ']'] = .ok [91, 49, 93] := by rfl
  ⟨reference_correct, h, ((canonical_form_unique reference reference_correct).1 _ _ h).1⟩

end CanonicalJson

end Protocol

end Tensorplate
