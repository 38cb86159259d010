import Mathlib.Algebra.GroupWithZero.Nat
import Mathlib.Data.List.Basic
import Mathlib.Tactic.Common

/-!
# Finite tables keyed by naturals

A table is an ordered map from naturals. Its laws are stated with plain
equality of keys.
-/

namespace Tensorplate

namespace Lib

/-- A finite map from naturals, iterated in key order. -/
abbrev Table (α : Type) := Std.TreeMap ℕ α

namespace Table

variable {α : Type} {t : Table α} {k a : ℕ} {v : α}

@[simp] theorem getElem?_empty : (∅ : Table α)[a]? = none := by simp

theorem getElem?_insert : (t.insert k v)[a]? = if k = a then some v else t[a]? := by
  rw [Std.TreeMap.getElem?_insert]
  simp

theorem getElem?_erase : (t.erase k)[a]? = if k = a then none else t[a]? := by
  rw [Std.TreeMap.getElem?_erase]
  simp

@[simp] theorem getElem?_insert_self : (t.insert k v)[k]? = some v := by
  simp

theorem getElem?_insert_of_ne (h : k ≠ a) : (t.insert k v)[a]? = t[a]? := by
  rw [getElem?_insert, if_neg h]

theorem getElem?_erase_of_ne (h : k ≠ a) : (t.erase k)[a]? = t[a]? := by
  rw [getElem?_erase, if_neg h]

theorem getElem?_modify {f : α → α} :
    (t.modify k f)[a]? = if k = a then t[a]?.map f else t[a]? := by
  rw [Std.TreeMap.getElem?_modify]
  by_cases h : k = a <;> simp [h]

theorem getElem?_map {γ : Type} {f : ℕ → α → γ} : (t.map f)[a]? = t[a]?.map (f a) := by
  rw [Std.TreeMap.getElem?_map]

theorem getElem?_eq_none : t[a]? = none ↔ a ∉ t := by
  simp

/-- The values, in key order. -/
def values (t : Table α) : List α := t.toList.map Prod.snd

@[simp] theorem length_values : t.values.length = t.size := by
  simp [values]

theorem mem_values : v ∈ t.values ↔ ∃ k : ℕ, t[k]? = some v := by
  simp [values, Std.TreeMap.mem_toList_iff_getElem?_eq_some]

theorem mem_toList {p : ℕ × α} : p ∈ t.toList ↔ t[p.1]? = some p.2 :=
  Std.TreeMap.mem_toList_iff_getElem?_eq_some

theorem nodup_toList : (t.toList.map Prod.fst).Nodup := by
  rw [Std.TreeMap.map_fst_toList_eq_keys]
  exact Std.TreeMap.nodup_keys

theorem mem_map_toList : a ∈ t.toList.map Prod.fst ↔ ∃ v, t[a]? = some v := by
  rw [List.mem_map]
  constructor
  · rintro ⟨p, hp, rfl⟩
    exact ⟨p.2, mem_toList.1 hp⟩
  · rintro ⟨v, hv⟩
    exact ⟨(a, v), mem_toList.2 hv, rfl⟩

theorem mem_iff_getElem? : a ∈ t ↔ ∃ v, t[a]? = some v := by
  rw [Std.TreeMap.mem_iff_isSome_getElem?, Option.isSome_iff_exists]

end Table

end Lib

end Tensorplate
