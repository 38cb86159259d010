import Mathlib.Algebra.GroupWithZero.Nat
import Mathlib.Data.List.Nodup
import Mathlib.Data.List.Range
import Mathlib.Data.List.Perm.Subperm
import Mathlib.Tactic.Common

/-!
# Periodic work

Pieces of work are due at ticks, the multiples of an interval, each at a
tick of its own and no two at one tick; a piece may start late and take
any time. The window of a tick runs from the tick to a limit that is not
past the tick after it. Of `n` ticks every one has exactly one piece of
work inside its window if and only if there are `n` pieces and each ended
inside the window of its own tick.
-/

namespace Tensorplate

namespace Lib

variable {β : Type*} (tick started ended : β → ℕ) (interval : ℕ) (limit : ℕ → ℕ)

/-- The piece of work lies inside the window of tick `k`. -/
def InWindow (k : ℕ) (b : β) : Prop := k * interval ≤ started b ∧ ended b < limit k

instance (k : ℕ) : DecidablePred (InWindow started ended interval limit k) :=
  fun _ => inferInstanceAs (Decidable (_ ∧ _))

/-- **Pieces of work at ticks below `n`**, in the order of their ticks. -/
structure Paced (bs : List β) (n : ℕ) : Prop where
  increasing : bs.Pairwise fun a b => tick a < tick b
  below : ∀ b ∈ bs, tick b < n
  due : ∀ b ∈ bs, tick b * interval ≤ started b
  ends : ∀ b ∈ bs, started b ≤ ended b

namespace Paced

variable {tick started ended interval limit} {bs : List β} {n : ℕ}

theorem nodup (h : Paced tick started ended interval bs n) : (bs.map tick).Nodup := by
  rw [List.Nodup, List.pairwise_map]
  exact h.increasing.imp fun hlt => Nat.ne_of_lt hlt

theorem eq_of_tick (h : Paced tick started ended interval bs n) {a b : β} (ha : a ∈ bs)
    (hb : b ∈ bs) (heq : tick a = tick b) : a = b :=
  List.inj_on_of_nodup_map h.nodup ha hb heq

theorem subset_range (h : Paced tick started ended interval bs n) :
    bs.map tick ⊆ List.range n := by
  intro k hk
  obtain ⟨b, hb, rfl⟩ := List.mem_map.1 hk
  exact List.mem_range.2 (h.below b hb)

theorem length_le (h : Paced tick started ended interval bs n) : bs.length ≤ n := by
  have hle := (h.nodup.subperm h.subset_range).length_le
  rwa [List.length_map, List.length_range] at hle

/-- Work inside a window is due at the tick of the window or before. -/
theorem tick_le (h : Paced tick started ended interval bs n)
    (hlimit : ∀ k, limit k ≤ (k + 1) * interval) {k : ℕ} {b : β} (hb : b ∈ bs)
    (hin : InWindow started ended interval limit k b) : tick b ≤ k := by
  have hdue := h.due b hb
  have hends := h.ends b hb
  have hbefore : tick b * interval < (k + 1) * interval :=
    lt_of_le_of_lt (hdue.trans hends) (lt_of_lt_of_le hin.2 (hlimit k))
  have hlt := Nat.lt_of_mul_lt_mul_right hbefore
  omega

/-- Windows do not meet. -/
theorem window_unique (h : Paced tick started ended interval bs n)
    (hlimit : ∀ k, limit k ≤ (k + 1) * interval) {j k : ℕ} {b : β} (hb : b ∈ bs)
    (hj : InWindow started ended interval limit j b)
    (hk : InWindow started ended interval limit k b) : k ≤ j := by
  have hends := h.ends b hb
  have hbefore : k * interval < (j + 1) * interval :=
    lt_of_le_of_lt (hk.1.trans hends) (lt_of_lt_of_le hj.2 (hlimit j))
  have hlt := Nat.lt_of_mul_lt_mul_right hbefore
  omega

/-- Where every window has work in it, that work is due at its tick: work
inside a window is due there or before, and the earlier ticks are taken. -/
theorem own_tick (h : Paced tick started ended interval bs n)
    (hlimit : ∀ k, limit k ≤ (k + 1) * interval)
    (hall : ∀ k < n, ∃ b ∈ bs, InWindow started ended interval limit k b) (k : ℕ) (hk : k < n) :
    ∃ b ∈ bs, tick b = k ∧ InWindow started ended interval limit k b := by
  induction k using Nat.strong_induction_on with
  | _ k ih =>
    obtain ⟨b, hb, hin⟩ := hall k hk
    refine ⟨b, hb, ?_, hin⟩
    have hle := h.tick_le hlimit hb hin
    by_contra hne
    have hlt : tick b < k := by omega
    obtain ⟨b', hb', htick, hin'⟩ := ih (tick b) hlt (h.below b hb)
    obtain rfl := h.eq_of_tick hb' hb htick
    have hback := h.window_unique hlimit hb hin' hin
    omega

theorem inWindow_iff (h : Paced tick started ended interval bs n)
    (hlimit : ∀ k, limit k ≤ (k + 1) * interval) {k : ℕ} {b : β} (hb : b ∈ bs)
    (hon : ended b < limit (tick b)) :
    InWindow started ended interval limit k b ↔ tick b = k := by
  have hown : InWindow started ended interval limit (tick b) b := ⟨h.due b hb, hon⟩
  constructor
  · intro hin
    have hle := h.tick_le hlimit hb hin
    have hge := h.window_unique hlimit hb hown hin
    omega
  · rintro rfl
    exact hown

/-- **Every window has exactly one piece of work if and only if there is one
for each tick and none ended late.** -/
theorem covered_iff (h : Paced tick started ended interval bs n)
    (hlimit : ∀ k, limit k ≤ (k + 1) * interval) :
    (bs.length = n ∧ ∀ b ∈ bs, ended b < limit (tick b)) ↔
      ∀ k < n, bs.countP (fun b => InWindow started ended interval limit k b) = 1 := by
  constructor
  · rintro ⟨hlength, hon⟩ k hk
    have hperm : (bs.map tick).Perm (List.range n) := by
      refine (h.nodup.subperm h.subset_range).perm_of_length_le ?_
      rw [List.length_map, List.length_range, hlength]
    have hcount : (bs.map tick).count k = 1 := by
      rw [hperm.count_eq]
      exact List.count_eq_one_of_mem List.nodup_range (List.mem_range.2 hk)
    rw [← hcount, List.count, List.countP_map]
    refine List.countP_congr fun b hb => ?_
    have hiff := h.inWindow_iff hlimit (k := k) hb (hon b hb)
    simp [hiff]
  · intro hone
    have hall : ∀ k < n, ∃ b ∈ bs, InWindow started ended interval limit k b := by
      intro k hk
      have hpos : 0 < bs.countP fun b => InWindow started ended interval limit k b := by
        rw [hone k hk]
        exact Nat.one_pos
      obtain ⟨b, hb, hin⟩ := List.countP_pos_iff.1 hpos
      exact ⟨b, hb, of_decide_eq_true hin⟩
    have hown := h.own_tick hlimit hall
    refine ⟨?_, fun b hb => ?_⟩
    · have hsub : List.range n ⊆ bs.map tick := by
        intro k hk
        obtain ⟨b, hb, htick, -⟩ := hown k (List.mem_range.1 hk)
        exact List.mem_map.2 ⟨b, hb, htick⟩
      have hge := (List.nodup_range.subperm hsub).length_le
      rw [List.length_map, List.length_range] at hge
      exact le_antisymm h.length_le hge
    · obtain ⟨b', hb', htick, hin⟩ := hown (tick b) (h.below b hb)
      obtain rfl := h.eq_of_tick hb' hb htick
      exact hin.2

end Paced

end Lib

end Tensorplate
