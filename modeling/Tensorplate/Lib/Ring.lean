import Mathlib.Algebra.GroupWithZero.Nat
import Mathlib.Data.List.Basic
import Mathlib.Data.Nat.ModEq

/-!
# A ring of the last entries

A ring of `c` cells written at the count of the entries so far, modulo
`c`, always holds the last `c` of them: entry `i` at cell `i % c`.

A queue on such a ring has a first cell and a count. Once full it takes a
new entry in the place of its oldest.
-/

namespace Tensorplate

namespace Lib

variable {α : Type*} {c : ℕ} {ring xs : List α} {d : α}

/-- **The ring holds the last `c` entries of `xs`.** -/
structure RingHolds (c : ℕ) (d : α) (ring xs : List α) : Prop where
  cells : ring.length = c
  entry : ∀ i < xs.length, xs.length ≤ i + c → ring.getD (i % c) d = xs.getD i d

theorem ringHolds_nil (hring : ring.length = c) : RingHolds c d ring [] :=
  ⟨hring, by simp⟩

/-- Two entries at most `c` apart share a cell only when they are `c`
apart. -/
theorem mod_ne_of_lt {i n : ℕ} (hi : i < n) (hn : n < i + c) : i % c ≠ n % c := by
  intro h
  have hdvd : c ∣ n - i := (Nat.modEq_iff_dvd' hi.le).1 h
  exact absurd (Nat.le_of_dvd (by omega) hdvd) (by omega)

/-- **One more entry** goes to its cell and displaces none of the last
`c`. -/
theorem RingHolds.push (h : RingHolds c d ring xs) (hc : 0 < c) (x : α) :
    RingHolds c d (ring.set (xs.length % c) x) (xs ++ [x]) := by
  refine ⟨by simp [h.cells], ?_⟩
  intro i hi hlast
  have hcell : xs.length % c < ring.length := by
    rw [h.cells]
    exact Nat.mod_lt _ hc
  simp only [List.length_append, List.length_singleton] at hi hlast
  rcases Nat.lt_succ_iff_lt_or_eq.1 hi with hlt | rfl
  · have hne : xs.length % c ≠ i % c := (mod_ne_of_lt hlt (by omega)).symm
    have hold := h.entry i hlt (by omega)
    rw [List.getD_eq_getElem?_getD, List.getElem?_set_ne hne, ← List.getD_eq_getElem?_getD, hold,
      List.getD_eq_getElem?_getD, List.getD_eq_getElem?_getD, List.getElem?_append_left hlt]
  · simp [List.getD_eq_getElem?_getD, hcell]

/-! ## A queue that overwrites its oldest entry -/

/-- Cells, the first one in use and how many are in use behind it. -/
structure RingQueue (α : Type*) where
  cells : List α
  first : ℕ := 0
  count : ℕ := 0

namespace RingQueue

variable {q : RingQueue α} {x : α}

/-- The entries, oldest first. -/
def entries (q : RingQueue α) (d : α) : List α :=
  (List.range q.count).map fun i => q.cells.getD ((q.first + i) % q.cells.length) d

/-- The new entry behind the others, or where the oldest was. -/
def push (q : RingQueue α) (x : α) : RingQueue α :=
  if q.count < q.cells.length then
    { q with
      cells := q.cells.set ((q.first + q.count) % q.cells.length) x
      count := q.count + 1 }
  else
    { q with
      cells := q.cells.set q.first x
      first := (q.first + 1) % q.cells.length }

/-- Nothing in use; the cells keep what they hold. -/
def clear (q : RingQueue α) : RingQueue α := { q with first := 0, count := 0 }

/-- The first cell is one of the ring, and no more are in use than it has. -/
structure Sound (q : RingQueue α) : Prop where
  first : q.first < q.cells.length
  count : q.count ≤ q.cells.length

@[simp] theorem length_push : (q.push x).cells.length = q.cells.length := by
  unfold push
  split <;> simp

@[simp] theorem length_entries : (q.entries d).length = q.count := by
  simp [entries]

theorem entries_clear : q.clear.entries d = [] := rfl

theorem Sound.clear (h : q.Sound) : q.clear.Sound :=
  ⟨Nat.lt_of_le_of_lt (Nat.zero_le _) h.first, Nat.zero_le _⟩

theorem Sound.push (h : q.Sound) : (q.push x).Sound := by
  have hfirst := h.first
  refine ⟨?_, ?_⟩
  · rw [length_push]
    unfold RingQueue.push
    split
    · exact hfirst
    · exact Nat.mod_lt _ (by omega)
  · rw [length_push]
    unfold RingQueue.push
    split
    · dsimp only
      omega
    · exact h.count

theorem getD_set_ne {cells : List α} {i j : ℕ} (h : i ≠ j) :
    (cells.set i x).getD j d = cells.getD j d := by
  rw [List.getD_eq_getElem?_getD, List.getElem?_set_ne h, ← List.getD_eq_getElem?_getD]

theorem getD_set_self {cells : List α} {i : ℕ} (h : i < cells.length) :
    (cells.set i x).getD i d = x := by
  rw [List.getD_eq_getElem?_getD, List.getElem?_set_self h, Option.getD_some]

/-- **While there is room** the new entry follows the others. -/
theorem entries_push_of_lt (h : q.Sound) (hroom : q.count < q.cells.length) :
    (q.push x).entries d = q.entries d ++ [x] := by
  have hfirst := h.first
  have hcell : (q.first + q.count) % q.cells.length < q.cells.length := Nat.mod_lt _ (by omega)
  unfold push entries
  rw [if_pos hroom]
  simp only [List.length_set]
  rw [List.range_succ, List.map_append, List.map_singleton, getD_set_self hcell]
  congr 1
  refine List.map_congr_left fun i hi => getD_set_ne ?_
  have hi' := List.mem_range.1 hi
  exact (mod_ne_of_lt (by omega) (by omega)).symm

/-- **A full ring** gives up its oldest entry. -/
theorem entries_push_of_full (h : q.Sound) (hfull : q.count = q.cells.length) :
    (q.push x).entries d = (q.entries d).tail ++ [x] := by
  have hfirst := h.first
  obtain ⟨n, hn⟩ : ∃ n, q.cells.length = n + 1 := ⟨q.cells.length - 1, by omega⟩
  unfold push entries
  rw [if_neg (by omega)]
  simp only [List.length_set]
  rw [hfull, hn, List.range_succ, List.map_append, List.map_singleton]
  -- the last place behind the new first cell is the old first cell
  have hlast : ((q.first + 1) % (n + 1) + n) % (n + 1) = q.first := by
    rw [Nat.mod_add_mod, Nat.add_assoc, Nat.add_comm 1 n, Nat.add_mod_right, Nat.mod_eq_of_lt]
    omega
  rw [hlast, getD_set_self hfirst]
  congr 1
  rw [← List.range_succ, List.range_succ_eq_map, List.map_cons, List.tail_cons, List.map_map]
  refine List.map_congr_left fun i hi => ?_
  have hi' := List.mem_range.1 hi
  have hplace : ((q.first + 1) % (n + 1) + i) % (n + 1) = (q.first + Nat.succ i) % (n + 1) := by
    rw [Nat.mod_add_mod]
    congr 1
    omega
  rw [hplace]
  refine getD_set_ne ?_
  have hself : q.first % (n + 1) = q.first := Nat.mod_eq_of_lt (by omega)
  rw [← hself]
  have hne := mod_ne_of_lt (c := n + 1) (i := q.first) (n := q.first + Nat.succ i) (by omega)
    (by omega)
  rwa [hself] at hne ⊢

end RingQueue

end Lib

end Tensorplate
