import Mathlib.Algebra.GroupWithZero.Nat
import Mathlib.Data.List.Basic
import Mathlib.Algebra.BigOperators.Group.List.Basic
import Mathlib.Tactic.Common

/-!
# A sender's window over late reports

A sender numbers its parcels and the receiver takes them in order; those it
took it holds until it is done with them. Now and then it reports the last
number it took and what it held then. Reports arrive late. A report covers
the receiver when what it says was held, with all that was sent behind the
number it names, is at least what is held now with all that is on the way:
then a sender that keeps this sum within the receiver's limit never sends
too much, however old the report is.
-/

namespace Tensorplate

namespace Lib

namespace Window

/-- Parcels in the order of their sending: a number and a size. -/
abbrev Parcels := List (ℕ × ℕ)

variable {sent rest : Parcels} {a b n size : ℕ}

/-- The sum of the sizes. -/
def total (l : Parcels) : ℕ := (l.map Prod.snd).sum

/-- The parcels behind a number. -/
def after (a : ℕ) (l : Parcels) : Parcels := l.filter fun p => a < p.1

/-- The number of the last parcel. -/
def last (l : Parcels) : ℕ := ((l.getLast?).map Prod.fst).getD 0

/-- Parcels are numbered upward from one. -/
structure Rising (l : Parcels) : Prop where
  order : l.Pairwise fun p q => p.1 < q.1
  pos : ∀ p ∈ l, 0 < p.1

@[simp] theorem total_append (l m : Parcels) : total (l ++ m) = total l + total m := by
  unfold total
  rw [List.map_append, List.sum_append]

@[simp] theorem total_nil : total [] = 0 := rfl

@[simp] theorem total_cons (p : ℕ × ℕ) (l : Parcels) : total (p :: l) = p.2 + total l := rfl

theorem after_append (a : ℕ) (l m : Parcels) : after a (l ++ m) = after a l ++ after a m :=
  List.filter_append ..

theorem after_of_lt (h : ∀ p ∈ sent, a < p.1) : after a sent = sent :=
  List.filter_eq_self.2 fun p hp => decide_eq_true (h p hp)

theorem after_of_le (h : ∀ p ∈ sent, p.1 ≤ a) : after a sent = [] := by
  refine List.filter_eq_nil_iff.2 fun p hp => ?_
  rw [decide_eq_true_eq, Nat.not_lt]
  exact h p hp

theorem after_concat (h : a < n) (sent : Parcels) :
    after a (sent ++ [(n, size)]) = after a sent ++ [(n, size)] := by
  have hnew : after a [(n, size)] = [(n, size)] := after_of_lt fun p hp => by
    rw [List.mem_singleton.1 hp]
    exact h
  rw [after_append, hnew]

/-- A later report names a later number. -/
theorem after_after (h : a ≤ b) (sent : Parcels) : after b (after a sent) = after b sent := by
  unfold after
  rw [List.filter_filter]
  refine List.filter_congr fun p _ => ?_
  by_cases hb : b < p.1
  · have ha : a < p.1 := by omega
    simp [hb, ha]
  · simp [hb]

theorem last_concat (sent : Parcels) (p : ℕ × ℕ) : last (sent ++ [p]) = p.1 := by
  unfold last
  rw [List.getLast?_append]
  rfl

theorem Rising.le_last (h : Rising sent) {p : ℕ × ℕ} (hp : p ∈ sent) : p.1 ≤ last sent := by
  rcases List.eq_nil_or_concat' sent with rfl | ⟨front, q, rfl⟩
  · exact absurd hp List.not_mem_nil
  · rw [last_concat]
    rcases List.mem_append.1 hp with hp | hp
    · exact Nat.le_of_lt ((List.pairwise_append.1 h.order).2.2 p hp q (List.mem_singleton_self q))
    · obtain rfl := List.mem_singleton.1 hp
      exact Nat.le_refl _

theorem Rising.left (h : Rising (sent ++ rest)) : Rising sent :=
  ⟨(List.pairwise_append.1 h.order).1, fun p hp => h.pos p (List.mem_append_left _ hp)⟩

theorem last_mem (h : sent ≠ []) : ∃ p ∈ sent, p.1 = last sent := by
  rcases List.eq_nil_or_concat' sent with rfl | ⟨front, q, rfl⟩
  · exact absurd rfl h
  · exact ⟨q, List.mem_append_right _ (List.mem_singleton_self q), (last_concat front q).symm⟩

theorem Rising.last_lt (h : Rising (sent ++ rest)) {p : ℕ × ℕ} (hp : p ∈ rest) :
    last sent < p.1 := by
  by_cases hnil : sent = []
  · rw [hnil]
    exact h.pos p (List.mem_append_right _ hp)
  · obtain ⟨q, hq, heq⟩ := last_mem hnil
    rw [← heq]
    exact (List.pairwise_append.1 h.order).2.2 q hq p hp

theorem Rising.last_le (h : Rising (sent ++ rest)) : last sent ≤ last (sent ++ rest) := by
  by_cases hnil : sent = []
  · rw [hnil]
    exact Nat.zero_le _
  · obtain ⟨q, hq, heq⟩ := last_mem hnil
    rw [← heq]
    exact h.le_last (List.mem_append_left _ hq)

/-- What was not taken is behind the last number that was. -/
theorem Rising.after_last (h : Rising (sent ++ rest)) : after (last sent) (sent ++ rest) = rest := by
  rw [after_append, after_of_le fun p hp => h.left.le_last hp,
    after_of_lt fun p hp => h.last_lt hp, List.nil_append]

theorem Rising.concat (h : Rising sent) (hn : ∀ p ∈ sent, p.1 < n) (hpos : 0 < n) :
    Rising (sent ++ [(n, size)]) := by
  refine ⟨List.pairwise_append.2 ⟨h.order, List.pairwise_singleton _ _, fun p hp q hq => ?_⟩,
    fun p hp => ?_⟩
  · rw [List.mem_singleton.1 hq]
    exact hn p hp
  · rcases List.mem_append.1 hp with hp | hp
    · exact h.pos p hp
    · rw [List.mem_singleton.1 hp]
      exact hpos

/-! ## Reports -/

/-- **A report covers the receiver**: `held` bytes in `waiting` parcels are
held now, `away` is on the way, and the report says that `used` bytes in
`seats` parcels were held once everything up to `a` was taken. -/
structure Covered (held waiting : ℕ) (away sent : Parcels) (a used seats : ℕ) : Prop where
  bytes : held + total away ≤ used + total (after a sent)
  places : waiting + away.length ≤ seats + (after a sent).length

variable {held held' waiting waiting' used seats : ℕ} {away : Parcels}

/-- A parcel is sent. -/
theorem Covered.sends (h : Covered held waiting away sent a used seats) (hn : a < n) :
    Covered held waiting (away ++ [(n, size)]) (sent ++ [(n, size)]) a used seats := by
  have hbytes := h.bytes
  have hplaces := h.places
  refine ⟨?_, ?_⟩
  · rw [after_concat hn, total_append, total_append]
    omega
  · rw [after_concat hn, List.length_append, List.length_append]
    omega

/-- A parcel is taken, and takes a place or none. -/
theorem Covered.takes (h : Covered held waiting ((n, size) :: away) sent a used seats)
    (hheld : held' = held + size) (hwaiting : waiting' ≤ waiting + 1) :
    Covered held' waiting' away sent a used seats := by
  have hbytes := h.bytes
  have hplaces := h.places
  rw [total_cons] at hbytes
  rw [List.length_cons] at hplaces
  dsimp only at hbytes
  exact ⟨by omega, by omega⟩

/-- Less is held. -/
theorem Covered.returns (h : Covered held waiting away sent a used seats) (hheld : held' ≤ held)
    (hwaiting : waiting' ≤ waiting) : Covered held' waiting' away sent a used seats :=
  ⟨Nat.le_trans (Nat.add_le_add_right hheld _) h.bytes,
    Nat.le_trans (Nat.add_le_add_right hwaiting _) h.places⟩

/-- **A report made now covers.** -/
theorem covered_now (held waiting : ℕ) (h : Rising (sent ++ away)) :
    Covered held waiting away (sent ++ away) (last sent) held waiting := by
  have hrest := h.after_last
  exact ⟨Nat.le_of_eq (by rw [hrest]), Nat.le_of_eq (by rw [hrest])⟩

/-- So does one that names nothing. -/
theorem covered_of_zero (held waiting : ℕ) (h : Rising (sent ++ away)) :
    Covered held waiting away (sent ++ away) 0 held waiting := by
  have hall : after 0 (sent ++ away) = sent ++ away := after_of_lt h.pos
  refine ⟨?_, ?_⟩
  · rw [hall, total_append]
    omega
  · rw [hall, List.length_append]
    omega

end Window

end Lib

end Tensorplate
