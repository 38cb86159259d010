import Mathlib.Algebra.GroupWithZero.Nat
import Mathlib.Data.List.Pairwise
import Mathlib.Data.List.Sort

/-!
# Maps listed in key order

A map is the list of its entries in the order of their keys. Entries of
distinct keys make one map, in whichever order they are inserted.
-/

namespace Tensorplate

namespace Lib

variable {α κ : Type} [LinearOrder κ] {key : α → κ}

/-- The insertion into a map in the order of its keys. -/
def insertBy (key : α → κ) (entries : List α) (entry : α) : List α :=
  entries.orderedInsert (fun a b => key a ≤ key b) entry

theorem insertBy_perm (entries : List α) (entry : α) :
    (insertBy key entries entry).Perm (entry :: entries) :=
  List.perm_orderedInsert _ _ _

theorem mem_insertBy {entries : List α} {entry e : α} :
    e ∈ insertBy key entries entry ↔ e = entry ∨ e ∈ entries := by
  rw [(insertBy_perm entries entry).mem_iff, List.mem_cons]

/-- The keys do not decrease. -/
def Ordered (key : α → κ) (entries : List α) : Prop :=
  entries.Pairwise fun a b => key a ≤ key b

theorem Ordered.insertBy {entries : List α} (h : Ordered key entries) (entry : α) :
    Ordered key (insertBy key entries entry) := by
  unfold Ordered Lib.insertBy at *
  induction entries with
  | nil => exact List.pairwise_singleton _ _
  | cons e rest ih =>
    rw [List.pairwise_cons] at h
    rw [List.orderedInsert_cons]
    split_ifs with hle
    · refine List.pairwise_cons.2 ⟨fun x hx => ?_, List.pairwise_cons.2 h⟩
      rcases List.mem_cons.1 hx with rfl | hx
      · exact hle
      · exact hle.trans (h.1 x hx)
    · refine List.pairwise_cons.2 ⟨fun x hx => ?_, ih h.2⟩
      rcases (List.mem_orderedInsert _).1 hx with rfl | hx
      · exact le_of_not_ge hle
      · exact h.1 x hx

/-- The entries inserted one by one. -/
theorem foldl_insertBy (entries loaded : List α) (h : Ordered key loaded) :
    (entries.foldl (insertBy key) loaded).Perm (entries ++ loaded) ∧
      Ordered key (entries.foldl (insertBy key) loaded) := by
  induction entries generalizing loaded with
  | nil => exact ⟨List.Perm.refl _, h⟩
  | cons e rest ih =>
    obtain ⟨hperm, hord⟩ := ih (insertBy key loaded e) (h.insertBy e)
    refine ⟨hperm.trans ?_, hord⟩
    exact ((insertBy_perm loaded e).append_left rest).trans List.perm_middle

theorem Ordered.eq_of_perm {xs ys : List α} (hx : Ordered key xs) (hy : Ordered key ys)
    (hperm : xs.Perm ys) (hdistinct : xs.Pairwise fun a b => key a ≠ key b) : xs = ys := by
  refine hperm.eq_of_pairwise ?_ hx hy
  intro a b ha hb hab hba
  by_contra hne
  have : Std.Symm fun a b : α => key a ≠ key b := ⟨fun _ _ h => h.symm⟩
  have hkeys : key a ≠ key b := hdistinct.forall ha (hperm.mem_iff.2 hb) hne
  exact hkeys (le_antisymm hab hba)

/-- **Entries of distinct keys make one map**, in whichever order they are
inserted. -/
theorem foldl_insertBy_perm {xs ys : List α} (hperm : xs.Perm ys)
    (hdistinct : xs.Pairwise fun a b => key a ≠ key b) :
    xs.foldl (insertBy key) [] = ys.foldl (insertBy key) [] := by
  have hnil : Ordered key [] := List.Pairwise.nil
  obtain ⟨hx, hox⟩ := foldl_insertBy xs [] hnil
  obtain ⟨hy, hoy⟩ := foldl_insertBy ys [] hnil
  rw [List.append_nil] at hx hy
  refine hox.eq_of_perm hoy (hx.trans (hperm.trans hy.symm)) ?_
  exact hdistinct.perm hx.symm fun h => h.symm

/-! ## Guarded insertion -/

section Guarded

variable {δ ε : Type} {load : List α → δ → Except ε (List α)} {entryOf : δ → Option α}
  {Fit : α → Prop} {Apart : α → α → Prop}

/-- `load` inserts the entry of a document where it is fit and apart from
those before, and fails elsewhere. -/
def Guarded (key : α → κ) (load : List α → δ → Except ε (List α)) (entryOf : δ → Option α)
    (Fit : α → Prop) (Apart : α → α → Prop) : Prop :=
  ∀ loaded loaded' document, load loaded document = .ok loaded' ↔
    ∃ entry, entryOf document = some entry ∧ Fit entry ∧ (∀ e ∈ loaded, Apart e entry) ∧
      loaded' = insertBy key loaded entry

/-- **Documents are loaded** where all have entries that are fit, and apart
from each other and from those before. -/
theorem Guarded.foldlM (h : Guarded key load entryOf Fit Apart) (documents : List δ)
    (loaded loaded' : List α) :
    documents.foldlM load loaded = .ok loaded' ↔
      (∀ document ∈ documents, (entryOf document).isSome) ∧
      (∀ entry ∈ documents.filterMap entryOf, Fit entry ∧ ∀ e ∈ loaded, Apart e entry) ∧
      (documents.filterMap entryOf).Pairwise Apart ∧
      loaded' = (documents.filterMap entryOf).foldl (insertBy key) loaded := by
  induction documents generalizing loaded with
  | nil =>
    simp only [List.foldlM_nil, List.filterMap_nil, List.foldl_nil]
    constructor
    · intro heq
      exact ⟨by simp, by simp, List.Pairwise.nil, (Except.ok.inj heq).symm⟩
    · rintro ⟨-, -, -, rfl⟩
      rfl
  | cons document rest ih =>
    rw [List.foldlM_cons]
    cases hload : load loaded document with
    | error e =>
      constructor
      · intro heq
        cases heq
      · rintro ⟨hsome, hfit, -⟩
        exfalso
        obtain ⟨entry, hentry⟩ := Option.isSome_iff_exists.1 (hsome document List.mem_cons_self)
        rw [List.filterMap_cons_some hentry] at hfit
        obtain ⟨hfit, hapart⟩ := hfit entry List.mem_cons_self
        have hok := (h loaded _ document).2 ⟨entry, hentry, hfit, hapart, rfl⟩
        rw [hload] at hok
        cases hok
    | ok next =>
      obtain ⟨entry, hentry, hfit, hapart, rfl⟩ := (h loaded next document).1 hload
      have hstep : (Except.ok (insertBy key loaded entry) >>= fun s => rest.foldlM load s) =
          rest.foldlM load (insertBy key loaded entry) := rfl
      rw [hstep, ih, List.filterMap_cons_some hentry]
      simp only [List.forall_mem_cons, hentry, Option.isSome_some, true_and, mem_insertBy,
        forall_eq_or_imp, List.pairwise_cons, List.foldl_cons]
      constructor
      · rintro ⟨hsome, hrest, hpair, heq⟩
        exact ⟨hsome, ⟨⟨hfit, hapart⟩, fun e he => ⟨(hrest e he).1, (hrest e he).2.2⟩⟩,
          ⟨fun e he => (hrest e he).2.1, hpair⟩, heq⟩
      · rintro ⟨hsome, ⟨-, hrest⟩, ⟨hhead, hpair⟩, heq⟩
        exact ⟨hsome, fun e he => ⟨(hrest e he).1, hhead e he, (hrest e he).2⟩, hpair, heq⟩

/-- **The order of the documents does not matter**, where entries that are
apart have distinct keys. -/
theorem Guarded.foldlM_perm (h : Guarded key load entryOf Fit Apart)
    (hsymm : ∀ {a b}, Apart a b → Apart b a) (hkeys : ∀ {a b}, Apart a b → key a ≠ key b)
    {documents documents' : List δ} (hperm : documents'.Perm documents) {loaded : List α}
    (hload : documents.foldlM load [] = .ok loaded) :
    documents'.foldlM load [] = .ok loaded := by
  rw [h.foldlM] at hload ⊢
  obtain ⟨hsome, hfit, hpair, rfl⟩ := hload
  have hentries : (documents'.filterMap entryOf).Perm (documents.filterMap entryOf) :=
    hperm.filterMap _
  refine ⟨fun d hd => hsome d (hperm.mem_iff.1 hd),
    fun e he => hfit e (hentries.mem_iff.1 he), hpair.perm hentries.symm hsymm, ?_⟩
  exact foldl_insertBy_perm hentries.symm (hpair.imp hkeys)

/-- The entries that were loaded are apart. -/
theorem Guarded.pairwise (h : Guarded key load entryOf Fit Apart)
    (hsymm : ∀ {a b}, Apart a b → Apart b a) {documents : List δ} {loaded : List α}
    (hload : documents.foldlM load [] = .ok loaded) : loaded.Pairwise Apart := by
  obtain ⟨-, -, hpair, rfl⟩ := (h.foldlM documents [] loaded).1 hload
  have hnil : Ordered key [] := List.Pairwise.nil
  obtain ⟨hperm, -⟩ := foldl_insertBy (documents.filterMap entryOf) [] hnil
  rw [List.append_nil] at hperm
  exact hpair.perm hperm.symm hsymm

end Guarded

end Lib

end Tensorplate
