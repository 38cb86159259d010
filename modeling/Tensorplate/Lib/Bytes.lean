import Mathlib.Algebra.GroupWithZero.Nat
import Mathlib.Data.List.Basic
import Mathlib.Tactic.Common

/-!
# Byte vectors that know their size

A vector of bytes with its size beside it, so that the size of a long
vector is read without walking it.
-/

namespace Tensorplate

namespace Lib

/-- A byte vector and its size. -/
structure Bytes where
  data : List UInt8
  size : ℕ
  size_eq : data.length = size

namespace Bytes

variable {a b : Bytes} {n m : ℕ}

@[ext] theorem ext (h : a.data = b.data) : a = b := by
  obtain ⟨data, size, rfl⟩ := a
  obtain ⟨data', size', rfl⟩ := b
  simp_all

instance : DecidableEq Bytes := fun a b =>
  if h : a.size = b.size then
    if h' : a.data = b.data then .isTrue (ext h') else .isFalse fun he => h' (he ▸ rfl)
  else .isFalse fun he => h (he ▸ rfl)

instance : Inhabited Bytes := ⟨⟨[], 0, rfl⟩⟩

instance : Repr Bytes := ⟨fun a _ => repr a.size⟩

/-- No bytes. -/
def empty : Bytes := ⟨[], 0, rfl⟩

def ofList (data : List UInt8) : Bytes := ⟨data, data.length, rfl⟩

/-- `count` copies of one byte. -/
def replicate (count : ℕ) (value : UInt8) : Bytes :=
  ⟨List.replicate count value, count, List.length_replicate⟩

instance : Append Bytes :=
  ⟨fun a b => ⟨a.data ++ b.data, a.size + b.size, by simp [a.size_eq, b.size_eq]⟩⟩

/-- The first `n` bytes. -/
def take (a : Bytes) (n : ℕ) : Bytes :=
  ⟨a.data.take n, min n a.size, by simp [a.size_eq]⟩

/-- All but the first `n` bytes. -/
def drop (a : Bytes) (n : ℕ) : Bytes :=
  ⟨a.data.drop n, a.size - n, by simp [a.size_eq]⟩

/-- The bytes `[from, to)`. -/
def slice (a : Bytes) (first last : ℕ) : Bytes := (a.take last).drop first

@[simp] theorem data_empty : empty.data = [] := rfl

@[simp] theorem size_empty : empty.size = 0 := rfl

@[simp] theorem data_append : (a ++ b).data = a.data ++ b.data := rfl

@[simp] theorem size_append : (a ++ b).size = a.size + b.size := rfl

@[simp] theorem data_take : (a.take n).data = a.data.take n := rfl

@[simp] theorem size_take : (a.take n).size = min n a.size := rfl

@[simp] theorem data_drop : (a.drop n).data = a.data.drop n := rfl

@[simp] theorem size_drop : (a.drop n).size = a.size - n := rfl

@[simp] theorem data_slice : (a.slice n m).data = (a.data.take m).drop n := rfl

@[simp] theorem size_slice : (a.slice n m).size = min m a.size - n := rfl

theorem eq_empty_iff : a = empty ↔ a.size = 0 := by
  constructor
  · rintro rfl
    rfl
  · intro h
    apply ext
    have := a.size_eq
    exact List.eq_nil_of_length_eq_zero (by omega)

theorem append_take_drop (n : ℕ) : a.take n ++ a.drop n = a := by
  apply ext
  simp

end Bytes

end Lib

end Tensorplate
