import Mathlib.Algebra.GroupWithZero.Nat
import Mathlib.Data.List.Basic

/-!
# Marks where a line skips an arrival

Numbers arrive in order, and some of them stand in a line. Each number of
the line carries a mark, and so does its end. `Linked` says that the marks
tell exactly where the line skips an arrival; it is kept when an arrival
joins the line or passes it by, and when a number leaves the line and the
place behind it is marked.
-/

namespace Tensorplate

namespace Lib

/-- **Marks where something is missing**: each number of the line after the
first one is marked iff some arrival lies between it and the one before, and
the end of the line iff some arrival lies behind it. -/
def Linked (arrivals : List ℕ) (last : Bool) : List (ℕ × Bool) → Prop
  | [] => True
  | [(x, _)] => last = true ↔ ∃ z ∈ arrivals, x < z
  | (x, _) :: (y, reset) :: rest =>
    (reset = true ↔ ∃ z ∈ arrivals, x < z ∧ z < y) ∧ Linked arrivals last ((y, reset) :: rest)

variable {arrivals : List ℕ} {last f g : Bool} {x y m z : ℕ} {line front back : List (ℕ × Bool)}

theorem Linked.tail {head : ℕ × Bool} (h : Linked arrivals last (head :: line)) :
    Linked arrivals last line := by
  cases line with
  | nil => trivial
  | cons second rest => exact h.2

theorem Linked.suffix (h : Linked arrivals last (front ++ line)) : Linked arrivals last line := by
  induction front with
  | nil => exact h
  | cons head rest ih => exact ih h.tail

/-- The mark of the first number says nothing. -/
theorem Linked.head (h : Linked arrivals last ((x, f) :: line)) (g : Bool) :
    Linked arrivals last ((x, g) :: line) := by
  cases line with
  | nil => exact h
  | cons second rest => exact h

/-- An arrival that does not join the line is missed behind its end. -/
theorem Linked.missed (h : Linked arrivals last line) (hz : ∀ q ∈ line, q.1 < z) :
    Linked (arrivals ++ [z]) true line := by
  induction line with
  | nil => trivial
  | cons head rest ih =>
    have hhead : head.1 < z := hz head List.mem_cons_self
    cases rest with
    | nil => exact ⟨fun _ => ⟨z, by simp, hhead⟩, fun _ => rfl⟩
    | cons second rest =>
      have hsecond : second.1 < z := hz second (by simp)
      refine ⟨h.1.trans ?_, ih h.2 fun q hq => hz q (List.mem_cons_of_mem _ hq)⟩
      constructor
      · rintro ⟨u, hu, hxu, huy⟩
        exact ⟨u, List.mem_append_left _ hu, hxu, huy⟩
      · rintro ⟨u, hu, hxu, huy⟩
        rcases List.mem_append.1 hu with hu | hu
        · exact ⟨u, hu, hxu, huy⟩
        · rw [List.mem_singleton] at hu
          omega

/-- An arrival that joins it takes over what was missed before. -/
theorem Linked.joined (h : Linked arrivals last line) (hy : ∀ u ∈ arrivals, u < y)
    (hline : ∀ q ∈ line, q.1 < y) : Linked (arrivals ++ [y]) false (line ++ [(y, last)]) := by
  induction line with
  | nil =>
    refine ⟨fun hfalse => absurd hfalse Bool.false_ne_true, ?_⟩
    rintro ⟨u, hu, hyu⟩
    rcases List.mem_append.1 hu with hu | hu
    · have := hy u hu
      omega
    · rw [List.mem_singleton] at hu
      omega
  | cons head rest ih =>
    have htail := ih h.tail fun q hq => hline q (List.mem_cons_of_mem _ hq)
    cases rest with
    | nil =>
      refine ⟨h.trans ?_, htail⟩
      constructor
      · rintro ⟨u, hu, hxu⟩
        exact ⟨u, List.mem_append_left _ hu, hxu, hy u hu⟩
      · rintro ⟨u, hu, hxu, huy⟩
        rcases List.mem_append.1 hu with hu | hu
        · exact ⟨u, hu, hxu⟩
        · rw [List.mem_singleton] at hu
          omega
    | cons second rest =>
      refine ⟨h.1.trans ?_, htail⟩
      have hsecond : second.1 < y := hline second (by simp)
      constructor
      · rintro ⟨u, hu, hxu, huy⟩
        exact ⟨u, List.mem_append_left _ hu, hxu, huy⟩
      · rintro ⟨u, hu, hxu, huy⟩
        rcases List.mem_append.1 hu with hu | hu
        · exact ⟨u, hu, hxu, huy⟩
        · rw [List.mem_singleton] at hu
          omega

/-- A number that leaves is missed by the one behind it. -/
theorem Linked.dropped (h : Linked arrivals last (front ++ (m, f) :: (y, g) :: back))
    (hsorted : ((front ++ (m, f) :: (y, g) :: back).map Prod.fst).Pairwise (· < ·))
    (hm : m ∈ arrivals) : Linked arrivals last (front ++ (y, true) :: back) := by
  induction front with
  | nil => exact h.tail.head true
  | cons head rest ih =>
    rw [List.cons_append, List.map_cons, List.pairwise_cons] at hsorted
    have htail := ih h.tail hsorted.2
    cases rest with
    | nil =>
      have hxm : head.1 < m := hsorted.1 m (by simp)
      have hmy : m < y := by
        have := hsorted.2
        simp only [List.nil_append, List.map_cons, List.pairwise_cons] at this
        exact this.1 y (by simp)
      exact ⟨⟨fun _ => ⟨m, hm, hxm, hmy⟩, fun _ => rfl⟩, htail⟩
    | cons second rest => exact ⟨h.1, htail⟩

/-- The last one that leaves is missed behind the end. -/
theorem Linked.droppedLast (h : Linked arrivals last (front ++ [(m, f)]))
    (hsorted : ((front ++ [(m, f)]).map Prod.fst).Pairwise (· < ·)) (hm : m ∈ arrivals) :
    Linked arrivals true front := by
  induction front with
  | nil => trivial
  | cons head rest ih =>
    rw [List.cons_append, List.map_cons, List.pairwise_cons] at hsorted
    cases rest with
    | nil =>
      have hxm : head.1 < m := hsorted.1 m (by simp)
      exact ⟨fun _ => ⟨m, hm, hxm⟩, fun _ => rfl⟩
    | cons second rest => exact ⟨h.1, ih h.2 hsorted.2⟩

end Lib

end Tensorplate
