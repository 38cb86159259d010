import Mathlib.Algebra.GroupWithZero.Nat
import Mathlib.Data.List.Basic

/-!
# Runs of a partial step function

A system is a function from a state and an action to the next state,
undefined where the action is not enabled. A run takes enabled actions
one after another, each meeting a side condition that may read the state
it is taken in: the assumption a result makes about its environment. A
property that the first state has and every such step keeps holds in
every state of every run.
-/

namespace Tensorplate

namespace Lib

variable {σ α : Type*} {step : σ → α → Option σ} {ok ok' : σ → α → Prop}

/-- **A run**, every step of which meets `ok`. -/
inductive Run (step : σ → α → Option σ) (ok : σ → α → Prop) (first : σ) : σ → Prop
  | refl : Run step ok first first
  | tail {s t : σ} {a : α} : Run step ok first s → ok s a → step s a = some t → Run step ok first t

/-- The side condition of a run under no assumption. -/
def Free (_ : σ) (_ : α) : Prop := True

/-- **The invariant rule.** -/
theorem Run.invariant {first s : σ} {I : σ → Prop} (hrun : Run step ok first s)
    (hfirst : I first)
    (hstep : ∀ s a t, I s → ok s a → step s a = some t → I t) : I s := by
  induction hrun with
  | refl => exact hfirst
  | tail _ hok hs ih => exact hstep _ _ _ ih hok hs

/-- A run under an assumption is one under any weaker assumption. -/
theorem Run.mono {first s : σ} (hrun : Run step ok first s)
    (hok : ∀ s a, ok s a → ok' s a) : Run step ok' first s := by
  induction hrun with
  | refl => exact Run.refl
  | tail _ ha hs ih => exact Run.tail ih (hok _ _ ha) hs

/-- The state a list of actions leads to, if each is enabled in turn. -/
def exec (step : σ → α → Option σ) : σ → List α → Option σ
  | s, [] => some s
  | s, a :: as => (step s a).bind fun t => exec step t as

theorem Run.trans {first s t : σ} (h₁ : Run step ok first s) (h₂ : Run step ok s t) :
    Run step ok first t := by
  induction h₂ with
  | refl => exact h₁
  | tail _ ha hs ih => exact Run.tail ih ha hs

/-- **A list of enabled actions is a run.** -/
theorem Run.of_exec {s t : σ} {as : List α} (h : exec step s as = some t) :
    Run step Free s t := by
  induction as generalizing s with
  | nil =>
    simp only [exec, Option.some.injEq] at h
    exact h ▸ Run.refl
  | cons a as ih =>
    simp only [exec, Option.bind_eq_some_iff] at h
    obtain ⟨u, hu, ht⟩ := h
    exact Run.trans (Run.tail Run.refl trivial hu) (ih ht)

/-! ## Paths of labelled moves -/

section Paths

variable {ℓ : Type*} {move : σ → ℓ → σ → Prop}

/-- **A path**: moves one after another, with their labels. -/
inductive Path (move : σ → ℓ → σ → Prop) : σ → List ℓ → σ → Prop
  | nil (s : σ) : Path move s [] s
  | cons {s t u : σ} {l : ℓ} {ls : List ℓ} :
    move s l t → Path move t ls u → Path move s (l :: ls) u

theorem Path.single {s t : σ} {l : ℓ} (h : move s l t) : Path move s [l] t :=
  Path.cons h (Path.nil t)

theorem Path.append {s t u : σ} {ls ks : List ℓ} (h₁ : Path move s ls t)
    (h₂ : Path move t ks u) : Path move s (ls ++ ks) u := by
  induction h₁ with
  | nil => exact h₂
  | cons h _ ih => exact Path.cons h (ih h₂)

/-- **The invariant rule of a path**: a property that each of its moves
keeps. -/
theorem Path.invariant {s t : σ} {ls : List ℓ} {I : σ → Prop} (h : Path move s ls t)
    (hs : I s) (hmove : ∀ s l t, l ∈ ls → I s → move s l t → I t) : I t := by
  induction h with
  | nil => exact hs
  | @cons s t u l ls hm _ ih =>
    exact ih (hmove s l t (by simp) hs hm) fun s l t hl => hmove s l t (by simp [hl])

/-- **A path of moves**, each of an allowed kind. -/
def Leads (move : σ → ℓ → σ → Prop) (allowed : ℓ → Prop) (s t : σ) : Prop :=
  ∃ ls, (∀ l ∈ ls, allowed l) ∧ Path move s ls t

namespace Leads

variable {allowed allowed' : ℓ → Prop} {s t u : σ}

theorem refl (s : σ) : Leads move allowed s s := ⟨[], by simp, Path.nil s⟩

theorem trans (h₁ : Leads move allowed s t) (h₂ : Leads move allowed t u) :
    Leads move allowed s u := by
  obtain ⟨ls, hls, p⟩ := h₁
  obtain ⟨ks, hks, q⟩ := h₂
  refine ⟨ls ++ ks, fun l hl => ?_, p.append q⟩
  rcases List.mem_append.1 hl with hl | hl
  · exact hls l hl
  · exact hks l hl

theorem single {l : ℓ} (h : move s l t) (ha : allowed l) : Leads move allowed s t :=
  ⟨[l], by simpa using ha, Path.single h⟩

theorem mono (h : Leads move allowed s t) (ha : ∀ l, allowed l → allowed' l) :
    Leads move allowed' s t := by
  obtain ⟨ls, hls, p⟩ := h
  exact ⟨ls, fun l hl => ha l (hls l hl), p⟩

/-- **The invariant rule of allowed moves.** -/
theorem invariant {I : σ → Prop} (h : Leads move allowed s t) (hs : I s)
    (hmove : ∀ s l t, allowed l → I s → move s l t → I t) : I t := by
  obtain ⟨ls, hls, p⟩ := h
  exact p.invariant hs fun s l t hl => hmove s l t (hls l hl)

end Leads

end Paths

/-- A list of enabled actions, each checked where it is taken, is a run. -/
theorem Run.of_checked {check : σ → α → Bool} (hcheck : ∀ s a, check s a = true → ok s a) {s t : σ}
    {as : List α} (h : exec (fun s a => if check s a then step s a else none) s as = some t) :
    Run step ok s t := by
  induction as generalizing s with
  | nil =>
    simp only [exec, Option.some.injEq] at h
    exact h ▸ Run.refl
  | cons a as ih =>
    rw [exec, Option.bind_eq_some_iff] at h
    obtain ⟨u, hu, hrest⟩ := h
    split at hu
    · rename_i hc
      exact (Run.tail Run.refl (hcheck s a hc) hu).trans (ih hrest)
    · cases hu

end Lib

end Tensorplate
