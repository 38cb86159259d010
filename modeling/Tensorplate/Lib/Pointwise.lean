import Mathlib.Algebra.GroupWithZero.Nat
import Mathlib.Data.List.Forall2

/-!
# Lists read item by item

A reader of lists that stops at the first item it refuses succeeds exactly
when it accepts every item, and what it makes of the list is what it makes
of the items, in their order.
-/

namespace Tensorplate

namespace Lib

open List

variable {α β γ ε : Type}

/-- A reader that may refuse, over a list. -/
theorem option_reads_iff {f : α → Option β} {F : List α → Option (List β)}
    (nil : F [] = some [])
    (cons : ∀ a as, F (a :: as) = (f a).bind fun b => (F as).map (b :: ·)) :
    ∀ {as : List α} {bs : List β}, F as = some bs ↔ Forall₂ (fun a b => f a = some b) as bs := by
  intro as
  induction as with
  | nil =>
    intro bs
    rw [nil]
    exact ⟨fun h => by cases h; exact .nil, fun h => by cases h; rfl⟩
  | cons a as ih =>
    intro bs
    rw [cons]
    constructor
    · intro h
      obtain ⟨b, hb, h⟩ := Option.bind_eq_some_iff.1 h
      obtain ⟨bs', hbs, rfl⟩ := Option.map_eq_some_iff.1 h
      exact .cons hb (ih.1 hbs)
    · intro h
      cases h with
      | cons hb hbs => rw [hb, Option.bind_some, ih.2 hbs, Option.map_some]

/-- A reader that names its refusal, over a list. -/
theorem except_reads_iff {f : α → Except ε β} {F : List α → Except ε (List β)}
    (nil : F [] = .ok [])
    (cons : ∀ a as, F (a :: as) = (f a).bind fun b => (F as).map (b :: ·)) :
    ∀ {as : List α} {bs : List β}, F as = .ok bs ↔ Forall₂ (fun a b => f a = .ok b) as bs := by
  intro as
  induction as with
  | nil =>
    intro bs
    rw [nil]
    exact ⟨fun h => by cases h; exact .nil, fun h => by cases h; rfl⟩
  | cons a as ih =>
    intro bs
    rw [cons]
    constructor
    · intro h
      cases hb : f a with
      | error e => rw [hb] at h; cases h
      | ok b =>
        rw [hb] at h
        cases hbs : F as with
        | error e => rw [hbs] at h; cases h
        | ok bs' =>
          rw [hbs] at h
          cases h
          exact .cons hb (ih.1 hbs)
    · intro h
      cases h with
      | cons hb hbs => rw [hb, ih.2 hbs]; rfl

/-- Two readings one after the other. -/
theorem forall₂_comp {R : α → β → Prop} {S : β → γ → Prop} {T : α → γ → Prop} {as : List α}
    {bs : List β} (h : Forall₂ R as bs) :
    ∀ {cs : List γ}, Forall₂ S bs cs → (∀ a ∈ as, ∀ b ∈ bs, ∀ c, R a b → S b c → T a c) →
      Forall₂ T as cs := by
  induction h with
  | nil => intro cs hs _; cases hs; exact .nil
  | cons hab _ ih =>
    intro cs hs hT
    cases hs with
    | cons hbc hs =>
      refine .cons (hT _ mem_cons_self _ mem_cons_self _ hab hbc) (ih hs fun a ha b hb => ?_)
      exact hT a (mem_cons_of_mem _ ha) b (mem_cons_of_mem _ hb)

/-- One reading, taken apart. -/
theorem forall₂_split {R : α → β → Prop} {S : β → γ → Prop} {T : α → γ → Prop} {as : List α}
    {cs : List γ} (h : Forall₂ T as cs)
    (hT : ∀ a ∈ as, ∀ c ∈ cs, T a c → ∃ b, R a b ∧ S b c) :
    ∃ bs, Forall₂ R as bs ∧ Forall₂ S bs cs := by
  induction h with
  | nil => exact ⟨[], .nil, .nil⟩
  | cons hac _ ih =>
    obtain ⟨b, hab, hbc⟩ := hT _ mem_cons_self _ mem_cons_self hac
    obtain ⟨bs, hr, hs⟩ := ih fun a ha c hc => hT a (mem_cons_of_mem _ ha) c (mem_cons_of_mem _ hc)
    exact ⟨b :: bs, .cons hab hr, .cons hbc hs⟩

theorem forall₂_imp_mem {R S : α → β → Prop} {as : List α} {bs : List β} (h : Forall₂ R as bs)
    (hS : ∀ a ∈ as, ∀ b ∈ bs, R a b → S a b) : Forall₂ S as bs := by
  induction h with
  | nil => exact .nil
  | cons hab _ ih =>
    refine .cons (hS _ mem_cons_self _ mem_cons_self hab) (ih fun a ha b hb => ?_)
    exact hS a (mem_cons_of_mem _ ha) b (mem_cons_of_mem _ hb)

theorem exists_forall₂ {R : α → β → Prop} {as : List α} (h : ∀ a ∈ as, ∃ b, R a b) :
    ∃ bs, Forall₂ R as bs := by
  induction as with
  | nil => exact ⟨[], .nil⟩
  | cons a as ih =>
    obtain ⟨b, hb⟩ := h a mem_cons_self
    obtain ⟨bs, hbs⟩ := ih fun a ha => h a (mem_cons_of_mem _ ha)
    exact ⟨b :: bs, .cons hb hbs⟩

theorem forall₂_exists_right {R : α → β → Prop} {as : List α} {bs : List β} (h : Forall₂ R as bs)
    {a : α} (ha : a ∈ as) : ∃ b ∈ bs, R a b := by
  induction h with
  | nil => cases ha
  | cons hab _ ih =>
    rcases mem_cons.1 ha with rfl | ha
    · exact ⟨_, mem_cons_self, hab⟩
    · obtain ⟨b, hb, hr⟩ := ih ha
      exact ⟨b, mem_cons_of_mem _ hb, hr⟩

theorem forall₂_exists_left {R : α → β → Prop} {as : List α} {bs : List β} (h : Forall₂ R as bs)
    {b : β} (hb : b ∈ bs) : ∃ a ∈ as, R a b := by
  obtain ⟨a, ha, hr⟩ := forall₂_exists_right h.flip hb
  exact ⟨a, ha, hr⟩

/-- A reading by a function. -/
theorem forall₂_map_self {f : α → β} {R : α → β → Prop} {as : List α}
    (h : ∀ a ∈ as, R a (f a)) : Forall₂ R as (as.map f) := by
  induction as with
  | nil => exact .nil
  | cons a as ih =>
    exact .cons (h a mem_cons_self) (ih fun a ha => h a (mem_cons_of_mem _ ha))

theorem map_eq_of_forall₂ {f : α → γ} {g : β → γ} {as : List α} {bs : List β}
    (h : Forall₂ (fun a b => f a = g b) as bs) : as.map f = bs.map g := by
  induction h with
  | nil => rfl
  | cons hab _ ih => rw [map_cons, map_cons, hab, ih]

end Lib

end Tensorplate
