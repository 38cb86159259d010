import Mathlib.Logic.Relation
import Tensorplate.Lib.History
import Tensorplate.Lib.Linked
import Tensorplate.Sidecar.Model.JobTable

/-!
# The line of a session's VAD jobs

What the table keeps for one session: the jobs of it that wait or run, each
with its mark to start from reset, and the state that the last one to be
scored left behind. A mark stands exactly where a submit of the session is
missing between two of them, so a job is given a state only by the submit
right before its own.
-/

namespace Tensorplate

namespace Sidecar

open Lib

variable {σ : Type}

/-- What happens to a session: a VAD submit arrives, a job of it is scored,
or its state is forgotten. -/
inductive Turn (σ : Type)
  | arrived (ref : ℕ)
  | scored (ref : ℕ) (utteranceId : ℕ) (state : Option σ)
  | cleared

/-- The numbers of the submits. -/
def arrivals (turns : List (Turn σ)) : List ℕ :=
  turns.filterMap fun
    | .arrived r => some r
    | _ => none

/-- The numbers of the jobs that were scored. -/
def scores (turns : List (Turn σ)) : List ℕ :=
  turns.filterMap fun
    | .scored r _ _ => some r
    | _ => none

/-- What is left of the last job to be scored, unless it was forgotten. -/
def carried : List (Turn σ) → Option (ℕ × ℕ × Option σ) :=
  List.foldl (fun c turn => match turn with
    | .arrived _ => c
    | .scored r u state => some (r, u, state)
    | .cleared => none) none

@[simp] theorem arrivals_append (a b : List (Turn σ)) :
    arrivals (a ++ b) = arrivals a ++ arrivals b := List.filterMap_append

@[simp] theorem scores_append (a b : List (Turn σ)) : scores (a ++ b) = scores a ++ scores b :=
  List.filterMap_append

@[simp] theorem arrivals_arrived (r : ℕ) (b : List (Turn σ)) :
    arrivals (.arrived r :: b) = r :: arrivals b := rfl

@[simp] theorem arrivals_scored (r u : ℕ) (state : Option σ) (b : List (Turn σ)) :
    arrivals (.scored r u state :: b) = arrivals b := rfl

@[simp] theorem arrivals_cleared (b : List (Turn σ)) : arrivals (.cleared :: b) = arrivals b := rfl

@[simp] theorem scores_arrived (r : ℕ) (b : List (Turn σ)) :
    scores (.arrived r :: b) = scores b := rfl

@[simp] theorem scores_scored (r u : ℕ) (state : Option σ) (b : List (Turn σ)) :
    scores (.scored r u state :: b) = r :: scores b := rfl

@[simp] theorem scores_cleared (b : List (Turn σ)) : scores (.cleared :: b) = scores b := rfl

@[simp] theorem arrivals_nil : arrivals ([] : List (Turn σ)) = [] := rfl

@[simp] theorem scores_nil : scores ([] : List (Turn σ)) = [] := rfl

@[simp] theorem carried_arrived (a : List (Turn σ)) (r : ℕ) :
    carried (a ++ [.arrived r]) = carried a := by
  simp [carried]

@[simp] theorem carried_scored (a : List (Turn σ)) (r u : ℕ) (state : Option σ) :
    carried (a ++ [.scored r u state]) = some (r, u, state) := by
  simp [carried]

@[simp] theorem carried_cleared (a : List (Turn σ)) : carried (a ++ [.cleared]) = none := by
  simp [carried]

theorem mem_arrivals {turns : List (Turn σ)} {r : ℕ} : r ∈ arrivals turns ↔ .arrived r ∈ turns := by
  unfold arrivals
  rw [List.mem_filterMap]
  constructor
  · rintro ⟨turn, hmem, hturn⟩
    cases turn with
    | arrived q => exact Option.some.inj hturn ▸ hmem
    | scored q u state => cases hturn
    | cleared => cases hturn
  · intro hmem
    exact ⟨_, hmem, rfl⟩

theorem mem_scores {turns : List (Turn σ)} {r : ℕ} :
    r ∈ scores turns ↔ ∃ u state, .scored r u state ∈ turns := by
  unfold scores
  rw [List.mem_filterMap]
  constructor
  · rintro ⟨turn, hmem, hturn⟩
    cases turn with
    | scored q u state => exact ⟨u, state, Option.some.inj hturn ▸ hmem⟩
    | arrived q => cases hturn
    | cleared => cases hturn
  · rintro ⟨u, state, hmem⟩
    exact ⟨_, hmem, rfl⟩

/-- **What is carried was scored, and nothing was scored or forgotten
since.** -/
theorem carried_eq_some {turns : List (Turn σ)} {r u : ℕ} {state : Option σ} :
    carried turns = some (r, u, state) ↔ ∃ a b, turns = a ++ .scored r u state :: b ∧
      scores b = [] ∧ .cleared ∉ b := by
  induction turns using List.reverseRecOn with
  | nil => simp [carried]
  | append_singleton turns turn ih =>
    have hlast : ∀ {a b : List (Turn σ)}, turns ++ [turn] = a ++ .scored r u state :: b →
        (turns = a ∧ turn = .scored r u state ∧ b = []) ∨
          ∃ c, b = c ++ [turn] ∧ turns = a ++ .scored r u state :: c := by
      intro a b heq
      rcases List.eq_nil_or_concat b with rfl | ⟨c, last, rfl⟩
      · obtain ⟨hturns, hturn⟩ := List.append_inj' heq rfl
        exact Or.inl ⟨hturns, (List.cons.inj hturn).1, rfl⟩
      · have hsplit : turns ++ [turn] = (a ++ .scored r u state :: c) ++ [last] := by
          simpa using heq
        obtain ⟨hturns, hturn⟩ := List.append_inj' hsplit rfl
        exact Or.inr ⟨c, by rw [(List.cons.inj hturn).1]; simp, hturns⟩
    have hgrow : ∀ {a b : List (Turn σ)}, turns = a ++ .scored r u state :: b →
        turns ++ [turn] = a ++ .scored r u state :: (b ++ [turn]) := by
      rintro a b rfl
      simp
    cases turn with
    | arrived q =>
      rw [carried_arrived, ih]
      constructor
      · rintro ⟨a, b, hturns, hscores, hcleared⟩
        exact ⟨a, b ++ [.arrived q], hgrow hturns, by simp [hscores], by simp [hcleared]⟩
      · rintro ⟨a, b, hturns, hscores, hcleared⟩
        rcases hlast hturns with ⟨-, hturn, -⟩ | ⟨c, rfl, hc⟩
        · cases hturn
        · exact ⟨a, c, hc, by simpa using hscores, fun hmem => hcleared (by simp [hmem])⟩
    | scored q v s =>
      rw [carried_scored]
      constructor
      · intro heq
        obtain ⟨rfl, rfl, rfl⟩ : q = r ∧ v = u ∧ s = state := by simpa using heq
        exact ⟨turns, [], rfl, rfl, by simp⟩
      · rintro ⟨a, b, hturns, hscores, hcleared⟩
        rcases hlast hturns with ⟨-, hturn, -⟩ | ⟨c, rfl, hc⟩
        · obtain ⟨rfl, rfl, rfl⟩ := Turn.scored.inj hturn
          rfl
        · simp at hscores
    | cleared =>
      rw [carried_cleared]
      constructor
      · intro heq
        cases heq
      · rintro ⟨a, b, hturns, hscores, hcleared⟩
        rcases hlast hturns with ⟨-, hturn, -⟩ | ⟨c, rfl, hc⟩
        · cases hturn
        · simp at hcleared

/-! ## The line -/

/-- **The VAD jobs of a session**, each with its mark to start from reset,
in the order in which they run; and what is held for the next one. -/
structure Line (σ : Type) where
  turns : List (Turn σ) := []
  queue : List (ℕ × Bool) := []
  held : Option (VadSession σ) := none
  next : ℕ := 0

/-- The entry of a session whose next job is to start from reset; it is made
only where a job of the session is live. -/
def flagged (held : Option (VadSession σ)) (live : Prop) [Decidable live] :
    Option (VadSession σ) :=
  match held with
  | some held => some { held with resetNext := true }
  | none => if live then some { resetNext := true } else none

/-- The next job of the session is to start from reset. -/
def resets (held : Option (VadSession σ)) : Bool := (held.map VadSession.resetNext).getD false

/-- The state a job of an utterance starts from. -/
def given (reset : Bool) (held : Option (VadSession σ)) (utteranceId : ℕ) : Option σ :=
  if reset then none
  else
    match held with
    | some held => if held.utteranceId = utteranceId then held.state else none
    | none => none

namespace Line

/-- One thing that happens to the line. -/
inductive Step (l : Line σ) : Line σ → Prop
  /-- A submit of another session arrives, or something else is numbered. -/
  | passed {n : ℕ} (hn : l.next ≤ n) : Step l { l with next := n }
  /-- A submit arrives and runs nothing. -/
  | missed : Step l { l with
      turns := l.turns ++ [.arrived l.next]
      held := flagged l.held (l.queue ≠ [])
      next := l.next + 1 }
  | joined : Step l { l with
      turns := l.turns ++ [.arrived l.next]
      queue := l.queue ++ [(l.next, resets l.held)]
      held := l.held.map fun held => { held with resetNext := false }
      next := l.next + 1 }
  /-- A job ends unscored. -/
  | dropped {front back : List (ℕ × Bool)} {r y : ℕ} {f g : Bool}
      (hqueue : l.queue = front ++ (r, f) :: (y, g) :: back) :
    Step l { l with queue := front ++ (y, true) :: back }
  | droppedLast {front : List (ℕ × Bool)} {r : ℕ} {f : Bool}
      (hqueue : l.queue = front ++ [(r, f)]) :
    Step l { l with queue := front, held := flagged l.held (front ≠ []) }
  | scored {rest : List (ℕ × Bool)} {r u : ℕ} {f : Bool} {state : Option σ}
      (hqueue : l.queue = (r, f) :: rest) : Step l { l with
      turns := l.turns ++ [.scored r u state]
      queue := rest
      held := some { l.held.getD {} with utteranceId := u, state := state } }
  | cleared (hqueue : l.queue = []) :
    Step l { l with turns := l.turns ++ [.cleared], held := none }

/-- The job whose state is carried, and those that are to run behind it. -/
def chain (l : Line σ) : List (ℕ × Bool) :=
  ((carried l.turns).map fun c => (c.1, false)).toList ++ l.queue

/-- **What the line keeps.** -/
structure Kept (l : Line σ) : Prop where
  sorted : (l.chain.map Prod.fst).Pairwise (· < ·)
  arrived : ∀ q ∈ l.chain, .arrived q.1 ∈ l.turns
  since : ∀ q ∈ l.chain, ∀ a b, l.turns = a ++ .arrived q.1 :: b → .cleared ∉ b
  linked : Linked (arrivals l.turns) (resets l.held) l.chain
  empty : l.held = none → carried l.turns = none
  entry : ∀ held, l.held = some held →
    (∃ p, carried l.turns = some (p, held.utteranceId, held.state)) ∨
      (carried l.turns = none ∧ held.state = none)
  order : (arrivals l.turns).Pairwise (· < ·)
  old : ∀ r ∈ arrivals l.turns, r < l.next
  scoring : (scores l.turns).Pairwise (· < ·)
  before : ∀ r ∈ scores l.turns, ∀ q ∈ l.queue, r < q.1
  after : Lawful (fun past turn => ∀ r u state, turn = .scored r u state → .arrived r ∈ past) l.turns

section Flagged

variable {held : Option (VadSession σ)} {live : Prop} [Decidable live]

theorem resets_flagged (h : held ≠ none ∨ live) : resets (flagged held live) = true := by
  cases held with
  | some held => rfl
  | none =>
    have hlive : live := h.resolve_left fun hne => hne rfl
    unfold flagged
    rw [if_pos hlive]
    rfl

theorem flagged_eq_none (h : flagged held live = none) : held = none := by
  cases held with
  | some held => cases h
  | none => rfl

/-- The mark changes nothing else of an entry, and a new one has no state. -/
theorem flagged_eq_some {e : VadSession σ} (h : flagged held live = some e) :
    (∃ e', held = some e' ∧ e'.utteranceId = e.utteranceId ∧ e'.state = e.state) ∨
      (held = none ∧ e.state = none) := by
  cases held with
  | some e' =>
    obtain rfl := Option.some.inj h
    exact Or.inl ⟨e', rfl, rfl, rfl⟩
  | none =>
    unfold flagged at h
    dsimp only at h
    split_ifs at h
    obtain rfl := Option.some.inj h
    exact Or.inr ⟨rfl, rfl⟩

theorem given_flagged (reset : Bool) (u : ℕ) :
    given reset (flagged held live) u = given reset held u := by
  unfold given flagged
  cases held with
  | some held => rfl
  | none =>
    by_cases hlive : live
    · simp [hlive]
    · simp [hlive]

end Flagged

/-- A turn that forgets nothing may follow. -/
theorem since_concat {turns : List (Turn σ)} {turn : Turn σ} {q : ℕ}
    (h : ∀ a b, turns = a ++ .arrived q :: b → .cleared ∉ b) (hturn : turn ≠ .cleared)
    (a b : List (Turn σ)) (heq : turns ++ [turn] = a ++ .arrived q :: b) : .cleared ∉ b := by
  rcases List.eq_nil_or_concat b with rfl | ⟨c, last, rfl⟩
  · exact List.not_mem_nil
  · have hsplit : turns ++ [turn] = (a ++ .arrived q :: c) ++ [last] := by simpa using heq
    obtain ⟨hturns, hlast⟩ := List.append_inj' hsplit rfl
    rw [List.concat_eq_append, List.mem_append, List.mem_singleton]
    rintro (hmem | hmem)
    · exact h a c hturns hmem
    · exact hturn ((List.cons.inj hlast).1.trans hmem.symm)

section Kept

variable {l l' : Line σ}

theorem Kept.lt_next (h : Kept l) {q : ℕ × Bool} (hq : q ∈ l.chain) : q.1 < l.next :=
  h.old q.1 (mem_arrivals.2 (h.arrived q hq))

/-- What is scored has arrived before. -/
theorem Kept.arrived_of_scored (h : Kept l) {r : ℕ} (hr : r ∈ scores l.turns) :
    r ∈ arrivals l.turns := by
  obtain ⟨u, state, hmem⟩ := mem_scores.1 hr
  obtain ⟨past, future, heq⟩ := List.append_of_mem hmem
  have hpast := h.after past _ future heq r u state rfl
  rw [mem_arrivals, heq]
  exact List.mem_append_left _ hpast

/-- The entry that is there where something is carried or waits. -/
theorem Kept.held_or_queue (h : Kept l) (hchain : l.chain ≠ []) : l.held ≠ none ∨ l.queue ≠ [] := by
  by_contra hnone
  push Not at hnone
  apply hchain
  unfold chain
  rw [h.empty hnone.1, hnone.2]
  rfl

theorem order_concat {turns : List (Turn σ)} {next : ℕ} (horder : (arrivals turns).Pairwise (· < ·))
    (hold : ∀ r ∈ arrivals turns, r < next) :
    (arrivals (turns ++ [.arrived next])).Pairwise (· < ·) ∧
      ∀ r ∈ arrivals (turns ++ [.arrived next]), r < next + 1 := by
  rw [arrivals_append, arrivals_arrived, arrivals_nil]
  constructor
  · rw [List.pairwise_append]
    refine ⟨horder, List.pairwise_singleton _ _, fun r hr q hq => ?_⟩
    rw [List.mem_singleton.1 hq]
    exact hold r hr
  · intro r hr
    rcases List.mem_append.1 hr with hr | hr
    · have := hold r hr
      omega
    · rw [List.mem_singleton.1 hr]
      omega

theorem after_concat {turns : List (Turn σ)} {turn : Turn σ}
    (h : Lawful (fun past turn => ∀ r u state, turn = .scored r u state → .arrived r ∈ past) turns)
    (hturn : ∀ r u state, turn = .scored r u state → .arrived r ∈ turns) :
    Lawful (fun past turn => ∀ r u state, turn = .scored r u state → .arrived r ∈ past)
      (turns ++ [turn]) :=
  lawful_append_singleton.2 ⟨h, hturn⟩

theorem Kept.missed (h : Kept l) : Kept { l with
    turns := l.turns ++ [.arrived l.next]
    held := flagged l.held (l.queue ≠ [])
    next := l.next + 1 } := by
  have hchain : ∀ held next, chain { l with
      turns := l.turns ++ [.arrived l.next], held := held, next := next } = l.chain := by
    intro held next
    unfold chain
    dsimp only
    rw [carried_arrived]
  obtain ⟨horder, hold⟩ := order_concat h.order h.old
  refine ⟨?_, ?_, ?_, ?_, ?_, ?_, horder, hold, ?_, ?_, after_concat h.after ?_⟩
  · rw [hchain]
    exact h.sorted
  · rw [hchain]
    intro q hq
    exact List.mem_append_left _ (h.arrived q hq)
  · rw [hchain]
    intro q hq
    exact since_concat (h.since q hq) (by simp)
  · rw [hchain]
    dsimp only
    rw [arrivals_append, arrivals_arrived, arrivals_nil]
    by_cases hempty : l.chain = []
    · rw [hempty]
      trivial
    · rw [resets_flagged (h.held_or_queue hempty)]
      exact h.linked.missed fun q hq => h.lt_next hq
  · intro hnone
    rw [carried_arrived]
    exact h.empty (flagged_eq_none hnone)
  · intro e he
    rw [carried_arrived]
    rcases flagged_eq_some he with ⟨e', he', hu, hstate⟩ | ⟨hnone, hstate⟩
    · rw [← hu, ← hstate]
      exact h.entry e' he'
    · exact Or.inr ⟨h.empty hnone, hstate⟩
  · rw [scores_append]
    simpa using h.scoring
  · intro r hr q hq
    exact h.before r (by simpa using hr) q hq
  · intro r u state hturn
    cases hturn

theorem Kept.joined (h : Kept l) : Kept { l with
    turns := l.turns ++ [.arrived l.next]
    queue := l.queue ++ [(l.next, resets l.held)]
    held := l.held.map fun held => { held with resetNext := false }
    next := l.next + 1 } := by
  have hchain : ∀ held next, chain { l with
      turns := l.turns ++ [.arrived l.next]
      queue := l.queue ++ [(l.next, resets l.held)]
      held := held, next := next } = l.chain ++ [(l.next, resets l.held)] := by
    intro held next
    unfold chain
    dsimp only
    rw [carried_arrived, List.append_assoc]
  have hresets : resets (l.held.map fun held => { held with resetNext := false }) = false := by
    cases l.held with
    | none => rfl
    | some held => rfl
  have hnew : .arrived l.next ∉ l.turns := by
    intro hmem
    have := h.old l.next (mem_arrivals.2 hmem)
    omega
  obtain ⟨horder, hold⟩ := order_concat h.order h.old
  refine ⟨?_, ?_, ?_, ?_, ?_, ?_, horder, hold, ?_, ?_, after_concat h.after ?_⟩
  · rw [hchain, List.map_append, List.pairwise_append]
    refine ⟨h.sorted, List.pairwise_singleton _ _, fun x hx y hy => ?_⟩
    obtain ⟨q, hq, rfl⟩ := List.mem_map.1 hx
    rw [List.map_singleton, List.mem_singleton] at hy
    rw [hy]
    exact h.lt_next hq
  · rw [hchain]
    intro q hq
    dsimp only
    rcases List.mem_append.1 hq with hq | hq
    · exact List.mem_append_left _ (h.arrived q hq)
    · rw [List.mem_singleton.1 hq]
      simp
  · rw [hchain]
    intro q hq
    rcases List.mem_append.1 hq with hq | hq
    · exact since_concat (h.since q hq) (by simp)
    · rw [List.mem_singleton.1 hq]
      refine since_concat (fun a b heq => absurd ?_ hnew) (by simp)
      rw [heq]
      simp
  · rw [hchain]
    dsimp only
    rw [hresets, arrivals_append, arrivals_arrived, arrivals_nil]
    exact h.linked.joined h.old fun q hq => h.lt_next hq
  · intro hnone
    rw [carried_arrived]
    exact h.empty (Option.map_eq_none_iff.1 hnone)
  · intro e he
    rw [carried_arrived]
    obtain ⟨e', he', rfl⟩ := Option.map_eq_some_iff.1 he
    exact h.entry e' he'
  · rw [scores_append]
    simpa using h.scoring
  · intro r hr q hq
    have hr' : r ∈ scores l.turns := by simpa using hr
    rcases List.mem_append.1 hq with hq | hq
    · exact h.before r hr' q hq
    · rw [List.mem_singleton.1 hq]
      exact h.old r (h.arrived_of_scored hr')
  · intro r u state hturn
    cases hturn

/-- What is left of the line without a job of it. -/
theorem Kept.shorter (h : Kept l) {queue : List (ℕ × Bool)} {held : Option (VadSession σ)}
    (hsub : (queue.map Prod.fst).Sublist (l.queue.map Prod.fst))
    (hlinked : Linked (arrivals l.turns) (resets held)
      (chain { l with queue := queue, held := held }))
    (hempty : held = none → l.held = none)
    (hentry : ∀ e, held = some e →
      (∃ e', l.held = some e' ∧ e'.utteranceId = e.utteranceId ∧ e'.state = e.state) ∨
        (l.held = none ∧ e.state = none)) : Kept { l with queue := queue, held := held } := by
  have hchain : ((chain { l with queue := queue, held := held }).map Prod.fst).Sublist
      (l.chain.map Prod.fst) := by
    unfold chain
    rw [List.map_append, List.map_append]
    exact List.Sublist.append (List.Sublist.refl _) hsub
  have hold : ∀ q ∈ chain { l with queue := queue, held := held }, ∃ q' ∈ l.chain, q'.1 = q.1 := by
    intro q hq
    exact List.mem_map.1 (hchain.subset (List.mem_map_of_mem hq))
  refine ⟨h.sorted.sublist hchain, ?_, ?_, hlinked, fun hnone => h.empty (hempty hnone), ?_, h.order,
    h.old, h.scoring, ?_, h.after⟩
  · intro q hq
    obtain ⟨q', hq', heq⟩ := hold q hq
    rw [← heq]
    exact h.arrived q' hq'
  · intro q hq
    obtain ⟨q', hq', heq⟩ := hold q hq
    rw [← heq]
    exact h.since q' hq'
  · intro e he
    rcases hentry e he with ⟨e', he', hu, hstate⟩ | ⟨hnone, hstate⟩
    · rw [← hu, ← hstate]
      exact h.entry e' he'
    · exact Or.inr ⟨h.empty hnone, hstate⟩
  · intro r hr q hq
    obtain ⟨q', hq', heq⟩ := List.mem_map.1 (hsub.subset (List.mem_map_of_mem hq))
    rw [← heq]
    exact h.before r hr q' hq'

theorem Kept.dropped (h : Kept l) {front back : List (ℕ × Bool)} {r y : ℕ} {f g : Bool}
    (hqueue : l.queue = front ++ (r, f) :: (y, g) :: back) :
    Kept { l with queue := front ++ (y, true) :: back } := by
  refine h.shorter ?_ ?_ id fun e he => Or.inl ⟨e, he, rfl, rfl⟩
  · rw [hqueue]
    simp only [List.map_append, List.map_cons]
    exact List.Sublist.append (List.Sublist.refl _) (List.sublist_cons_self _ _)
  · have hsorted := h.sorted
    have hlinked := h.linked
    have hr : r ∈ arrivals l.turns := mem_arrivals.2 (h.arrived (r, f) (by simp [chain, hqueue]))
    unfold chain at hsorted hlinked ⊢
    rw [hqueue, ← List.append_assoc] at hsorted hlinked
    rw [← List.append_assoc]
    exact hlinked.dropped hsorted hr

theorem Kept.droppedLast (h : Kept l) {front : List (ℕ × Bool)} {r : ℕ} {f : Bool}
    (hqueue : l.queue = front ++ [(r, f)]) :
    Kept { l with queue := front, held := flagged l.held (front ≠ []) } := by
  refine h.shorter ?_ ?_ flagged_eq_none fun e he => flagged_eq_some he
  · rw [hqueue, List.map_append]
    exact List.sublist_append_left _ _
  · have hsorted := h.sorted
    have hlinked := h.linked
    have hr : r ∈ arrivals l.turns := mem_arrivals.2 (h.arrived (r, f) (by simp [chain, hqueue]))
    unfold chain at hsorted hlinked ⊢
    rw [hqueue, ← List.append_assoc] at hsorted hlinked
    have hshort := hlinked.droppedLast hsorted hr
    dsimp only
    by_cases hempty : l.held = none ∧ front = []
    · rw [h.empty hempty.1, hempty.2]
      trivial
    · rw [resets_flagged (by tauto)]
      exact hshort

theorem Kept.scored (h : Kept l) {rest : List (ℕ × Bool)} {r u : ℕ} {f : Bool} {state : Option σ}
    (hqueue : l.queue = (r, f) :: rest) : Kept { l with
      turns := l.turns ++ [.scored r u state]
      queue := rest
      held := some { l.held.getD {} with utteranceId := u, state := state } } := by
  have hchain : chain { l with
      turns := l.turns ++ [.scored r u state]
      queue := rest
      held := some { l.held.getD {} with utteranceId := u, state := state } } =
        (r, false) :: rest := by
    unfold chain
    dsimp only
    rw [carried_scored]
    rfl
  have hresets : resets (some { l.held.getD {} with utteranceId := u, state := state }) =
      resets l.held := by
    cases l.held with
    | none => rfl
    | some held => rfl
  obtain ⟨front, hfront⟩ : ∃ front, l.chain = front ++ (r, f) :: rest := by
    refine ⟨((carried l.turns).map fun c => (c.1, false)).toList, ?_⟩
    unfold chain
    rw [hqueue]
  have hsorted := h.sorted
  rw [hfront, List.map_append, List.map_cons, List.pairwise_append] at hsorted
  have hold : ∀ q ∈ (r, false) :: rest, ∃ q' ∈ l.chain, q'.1 = q.1 := by
    intro q hq
    rw [hfront]
    rcases List.mem_cons.1 hq with rfl | hq
    · exact ⟨(r, f), by simp, rfl⟩
    · exact ⟨q, by simp [hq], rfl⟩
  have hmem : .arrived r ∈ l.turns := h.arrived (r, f) (by rw [hfront]; simp)
  refine ⟨?_, ?_, ?_, ?_, ?_, ?_, ?_, ?_, ?_, ?_, after_concat h.after ?_⟩
  · rw [hchain]
    exact hsorted.2.1
  · rw [hchain]
    intro q hq
    obtain ⟨q', hq', heq⟩ := hold q hq
    rw [← heq]
    exact List.mem_append_left _ (h.arrived q' hq')
  · rw [hchain]
    intro q hq
    obtain ⟨q', hq', heq⟩ := hold q hq
    rw [← heq]
    exact since_concat (h.since q' hq') (by simp)
  · rw [hchain]
    dsimp only
    rw [hresets, arrivals_append, arrivals_scored, arrivals_nil, List.append_nil]
    have hlinked := h.linked
    rw [hfront] at hlinked
    exact (hlinked.suffix).head false
  · intro hnone
    cases hnone
  · intro e he
    obtain rfl := Option.some.inj he
    exact Or.inl ⟨r, carried_scored _ _ _ _⟩
  · rw [arrivals_append]
    simpa using h.order
  · intro q hq
    exact h.old q (by simpa using hq)
  · rw [scores_append, scores_scored, scores_nil, List.pairwise_append]
    refine ⟨h.scoring, List.pairwise_singleton _ _, fun x hx y hy => ?_⟩
    rw [List.mem_singleton.1 hy]
    exact h.before x hx (r, f) (by rw [hqueue]; simp)
  · intro x hx q hq
    dsimp only at hx hq
    rw [scores_append, scores_scored, scores_nil, List.mem_append, List.mem_singleton] at hx
    rcases hx with hx | rfl
    · exact h.before x hx q (by rw [hqueue]; simp [hq])
    · exact (List.pairwise_cons.1 hsorted.2.1).1 q.1 (List.mem_map_of_mem hq)
  · intro q v s hturn
    obtain ⟨rfl, -, -⟩ := Turn.scored.inj hturn
    exact hmem

theorem Kept.cleared (h : Kept l) (hqueue : l.queue = []) :
    Kept { l with turns := l.turns ++ [.cleared], held := none } := by
  have hchain : chain { l with turns := l.turns ++ [.cleared], held := none } = [] := by
    unfold chain
    dsimp only
    rw [carried_cleared, hqueue]
    rfl
  refine ⟨?_, ?_, ?_, ?_, ?_, ?_, ?_, ?_, ?_, ?_, after_concat h.after ?_⟩
  · rw [hchain]
    exact List.Pairwise.nil
  · rw [hchain]
    intro q hq
    cases hq
  · rw [hchain]
    intro q hq
    cases hq
  · rw [hchain]
    trivial
  · intro hnone
    exact carried_cleared _
  · intro e he
    cases he
  · rw [arrivals_append]
    simpa using h.order
  · intro q hq
    exact h.old q (by simpa using hq)
  · rw [scores_append]
    simpa using h.scoring
  · intro r hr q hq
    rw [hqueue] at hq
    cases hq
  · intro r u state hturn
    cases hturn

/-- **Every step keeps the line.** -/
theorem Kept.step (h : Kept l) (hstep : Step l l') : Kept l' := by
  cases hstep with
  | passed hn =>
    exact ⟨h.sorted, h.arrived, h.since, h.linked, h.empty, h.entry, h.order,
      fun r hr => (h.old r hr).trans_le hn, h.scoring, h.before, h.after⟩
  | missed => exact h.missed
  | joined => exact h.joined
  | dropped hqueue => exact h.dropped hqueue
  | droppedLast hqueue => exact h.droppedLast hqueue
  | scored hqueue => exact h.scored hqueue
  | cleared hqueue => exact h.cleared hqueue

/-! ## The state that is given -/

/-- **The submit right before a job completed**: `a` is what happened before
the job's own submit, and `b` what happened since. Nothing forgot the state
between the two submits. -/
def Continues (a b : List (Turn σ)) (utteranceId : ℕ) (state : Option σ) : Prop :=
  ∃ front p c, a = front ++ .arrived p :: c ∧ arrivals c = [] ∧ .cleared ∉ c ∧
    .scored p utteranceId state ∈ c ++ b

theorem pairwise_middle {a b : List ℕ} {x : ℕ} (h : (a ++ x :: b).Pairwise (· < ·)) :
    (∀ y ∈ a, y < x) ∧ ∀ y ∈ b, x < y := by
  rw [List.pairwise_append, List.pairwise_cons] at h
  exact ⟨fun y hy => h.2.2 y hy x List.mem_cons_self, h.2.1.1⟩

/-- What was carried to the first job of the line is what its predecessor
left. -/
theorem Kept.carried_of_continues (h : Kept l) {r u : ℕ} {f : Bool} {rest : List (ℕ × Bool)}
    {state : Option σ} (hqueue : l.queue = (r, f) :: rest) {front b c : List (Turn σ)} {p : ℕ}
    (hturns : l.turns = (front ++ .arrived p :: c) ++ .arrived r :: b) (hc : arrivals c = [])
    (hcleared : .cleared ∉ c) (hb : .cleared ∉ b) (hscored : .scored p u state ∈ c ++ b) :
    carried l.turns = some (p, u, state) := by
  have horder := h.order
  rw [hturns] at horder
  simp only [arrivals_append, arrivals_arrived, hc, List.append_assoc, List.cons_append,
    List.nil_append] at horder
  obtain ⟨hfront, hback⟩ := pairwise_middle horder
  have hr : ∀ y ∈ arrivals b, r < y := (List.pairwise_cons.1 (List.pairwise_cons.1
    (List.pairwise_append.1 horder).2.1).2).1
  -- The turns from the score on: nothing is forgotten among them.
  obtain ⟨x, y, heq, hy⟩ : ∃ x y, l.turns = x ++ .scored p u state :: y ∧ .cleared ∉ y := by
    rcases List.mem_append.1 hscored with hmem | hmem
    · obtain ⟨c₁, c₂, rfl⟩ := List.append_of_mem hmem
      refine ⟨front ++ .arrived p :: c₁, c₂ ++ .arrived r :: b, by rw [hturns]; simp, ?_⟩
      simp only [List.mem_append, List.mem_cons, reduceCtorEq, false_or, not_or] at hcleared ⊢
      exact ⟨hcleared.2, hb⟩
    · obtain ⟨b₁, b₂, rfl⟩ := List.append_of_mem hmem
      refine ⟨front ++ .arrived p :: (c ++ .arrived r :: b₁), b₂, by rw [hturns]; simp, ?_⟩
      simp only [List.mem_append, List.mem_cons, reduceCtorEq, false_or, not_or] at hb
      exact hb.2
  refine carried_eq_some.2 ⟨x, y, heq, List.eq_nil_iff_forall_not_mem.2 fun q hq => ?_, hy⟩
  -- A job scored since lies between the two submits.
  have hscoring := h.scoring
  rw [heq, scores_append, scores_scored] at hscoring
  have hpq : p < q := (pairwise_middle hscoring).2 q hq
  have hmem : q ∈ scores l.turns := by
    rw [heq, scores_append, scores_scored]
    simp [hq]
  have hqr : q < r := h.before q hmem (r, f) (by rw [hqueue]; exact List.mem_cons_self)
  have harrived := h.arrived_of_scored hmem
  rw [hturns] at harrived
  simp only [arrivals_append, arrivals_arrived, hc, List.append_assoc, List.cons_append,
    List.nil_append, List.mem_append, List.mem_cons] at harrived
  rcases harrived with hq | hq | hq | hq
  · have := hfront q hq
    omega
  · omega
  · omega
  · have := hr q hq
    omega

/-- The submit that is carried to an unmarked job is the one right before
its own. -/
theorem Kept.continues_of_carried (h : Kept l) {r p u : ℕ} {rest : List (ℕ × Bool)}
    {state : Option σ} (hqueue : l.queue = (r, false) :: rest) {a b : List (Turn σ)}
    (hturns : l.turns = a ++ .arrived r :: b) (hcarried : carried l.turns = some (p, u, state)) :
    Continues a b u state := by
  have hchain : l.chain = (p, false) :: (r, false) :: rest := by
    unfold chain
    rw [hcarried, hqueue]
    rfl
  have hlinked := h.linked
  have hsorted := h.sorted
  rw [hchain] at hlinked hsorted
  have hgap : ¬ ∃ z ∈ arrivals l.turns, p < z ∧ z < r := fun hz =>
    absurd (hlinked.1.2 hz) Bool.false_ne_true
  have hpr : p < r := (List.pairwise_cons.1 hsorted).1 r (by simp)
  have horder := h.order
  rw [hturns, arrivals_append, arrivals_arrived] at horder
  obtain ⟨-, hback⟩ := pairwise_middle horder
  have hp : p ∈ arrivals a := by
    have hmem := mem_arrivals.2 (h.arrived (p, false) (by rw [hchain]; exact List.mem_cons_self))
    rw [hturns, arrivals_append, arrivals_arrived, List.mem_append, List.mem_cons] at hmem
    rcases hmem with hmem | hmem | hmem
    · exact hmem
    · dsimp only at hmem
      omega
    · have := hback p hmem
      omega
  obtain ⟨front, c, rfl⟩ := List.append_of_mem (mem_arrivals.1 hp)
  have hsplit : l.turns = front ++ .arrived p :: (c ++ .arrived r :: b) := by
    rw [hturns]
    simp
  have hsince := h.since (p, false) (by rw [hchain]; exact List.mem_cons_self) _ _ hsplit
  have horder' := h.order
  rw [hsplit, arrivals_append, arrivals_arrived] at horder'
  obtain ⟨hfront, hlater⟩ := pairwise_middle horder'
  refine ⟨front, p, c, rfl, List.eq_nil_iff_forall_not_mem.2 fun q hq => ?_,
    fun hmem => hsince (List.mem_append_left _ hmem), ?_⟩
  · have hpq : p < q := hlater q (by rw [arrivals_append]; exact List.mem_append_left _ hq)
    have hqr : q < r := by
      rw [arrivals_append, arrivals_arrived] at horder
      exact (pairwise_middle horder).1 q (by simp [hq])
    refine hgap ⟨q, ?_, hpq, hqr⟩
    rw [hsplit]
    simp [hq]
  · obtain ⟨x, y, heq, -, -⟩ := carried_eq_some.1 hcarried
    have hmem : .scored p u state ∈ l.turns := by
      rw [heq]
      simp
    rw [hsplit] at hmem
    rcases List.mem_append.1 hmem with hmem | hmem
    · -- Its own submit would have come twice.
      obtain ⟨f₁, f₂, rfl⟩ := List.append_of_mem hmem
      have hpast := h.after f₁ (.scored p u state) (f₂ ++ .arrived p :: (c ++ .arrived r :: b))
        (by rw [hsplit]; simp) p u state rfl
      have := hfront p (by
        rw [arrivals_append]
        exact List.mem_append_left _ (mem_arrivals.2 hpast))
      omega
    · simpa using hmem

/-- **The state of the first job of the line** is that of its predecessor,
where it continues it, and none elsewhere. -/
theorem Kept.given (h : Kept l) {r u : ℕ} {f : Bool} {rest : List (ℕ × Bool)}
    (hqueue : l.queue = (r, f) :: rest) {a b : List (Turn σ)}
    (hturns : l.turns = a ++ .arrived r :: b) :
    (∀ state, Continues a b u state → given f l.held u = state) ∧
      ((∀ state, ¬ Continues a b u state) → given f l.held u = none) := by
  have hmem : (r, f) ∈ l.chain := by
    unfold chain
    rw [hqueue]
    simp
  have hsince := h.since (r, f) hmem a b hturns
  constructor
  · rintro state ⟨front, p, c, rfl, hc, hcleared, hscored⟩
    have hcarried := h.carried_of_continues hqueue hturns hc hcleared hsince hscored
    have hchain : l.chain = (p, false) :: (r, f) :: rest := by
      unfold chain
      rw [hcarried, hqueue]
      rfl
    have hlinked := h.linked
    have horder := h.order
    rw [hchain] at hlinked
    rw [hturns] at horder
    simp only [arrivals_append, arrivals_arrived, hc, List.append_assoc, List.cons_append,
      List.nil_append] at horder
    have hf : f = false := by
      rw [Bool.eq_false_iff]
      intro htrue
      obtain ⟨z, hz, hpz, hzr⟩ := hlinked.1.1 htrue
      rw [hturns] at hz
      simp only [arrivals_append, arrivals_arrived, hc, List.append_assoc, List.cons_append,
        List.nil_append, List.mem_append, List.mem_cons] at hz
      have hfront := (pairwise_middle horder).1
      have hb := (List.pairwise_cons.1 (List.pairwise_cons.1
        (List.pairwise_append.1 horder).2.1).2).1
      rcases hz with hz | hz | hz | hz
      · have := hfront z hz
        omega
      · omega
      · omega
      · have := hb z hz
        omega
    cases hheld : l.held with
    | none =>
      rw [h.empty hheld] at hcarried
      cases hcarried
    | some e =>
      rcases h.entry e hheld with ⟨p', heq⟩ | ⟨heq, -⟩
      · rw [hcarried] at heq
        obtain ⟨-, rfl, rfl⟩ : p = p' ∧ u = e.utteranceId ∧ state = e.state := by simpa using heq
        simp [Sidecar.given, hf]
      · rw [hcarried] at heq
        cases heq
  · intro hnone
    by_contra hgiven
    unfold Sidecar.given at hgiven
    cases f with
    | true => exact hgiven rfl
    | false =>
      cases hheld : l.held with
      | none =>
        rw [hheld] at hgiven
        exact hgiven rfl
      | some e =>
        rw [hheld] at hgiven
        dsimp only at hgiven
        rw [if_neg Bool.false_ne_true] at hgiven
        split_ifs at hgiven with hu
        · rcases h.entry e hheld with ⟨p, hcarried⟩ | ⟨-, hstate⟩
          · rw [hu] at hcarried
            exact hnone _ (h.continues_of_carried hqueue hturns hcarried)
          · exact hgiven hstate
        · exact hgiven rfl

/-- While a job is the first of the line, what it is given stays. -/
theorem Kept.given_step (h : Kept l) (hstep : Step l l') {r u : ℕ} {f f' : Bool}
    {rest rest' : List (ℕ × Bool)} (hqueue : l.queue = (r, f) :: rest)
    (hqueue' : l'.queue = (r, f') :: rest') : Sidecar.given f' l'.held u = Sidecar.given f l.held u := by
  have hsorted : (l.queue.map Prod.fst).Pairwise (· < ·) := by
    have hsorted := h.sorted
    unfold chain at hsorted
    rw [List.map_append] at hsorted
    exact (List.pairwise_append.1 hsorted).2.1
  cases hstep with
  | passed hn =>
    rw [hqueue] at hqueue'
    obtain ⟨heq, -⟩ := List.cons.inj hqueue'
    rw [(Prod.mk.inj heq).2]
  | missed =>
    rw [hqueue] at hqueue'
    obtain ⟨heq, -⟩ := List.cons.inj hqueue'
    rw [← (Prod.mk.inj heq).2]
    exact given_flagged f u
  | joined =>
    dsimp only at hqueue' ⊢
    rw [hqueue, List.cons_append] at hqueue'
    obtain ⟨heq, -⟩ := List.cons.inj hqueue'
    rw [← (Prod.mk.inj heq).2]
    cases l.held with
    | none => rfl
    | some held => rfl
  | @dropped front back m y f₁ g hold =>
    dsimp only at hqueue' ⊢
    cases front with
    | nil =>
      rw [hqueue] at hold
      obtain ⟨heq, hrest⟩ := List.cons.inj hold
      obtain ⟨heq', -⟩ := List.cons.inj hqueue'
      rw [hqueue, List.map_cons, List.pairwise_cons, hrest] at hsorted
      have hlt := hsorted.1 y (by simp)
      have hyr := (Prod.mk.inj heq').1
      omega
    | cons head front =>
      rw [hqueue, List.cons_append] at hold
      rw [List.cons_append, ← (List.cons.inj hold).1] at hqueue'
      obtain ⟨heq, -⟩ := List.cons.inj hqueue'
      rw [(Prod.mk.inj heq).2]
  | @droppedLast front m f₁ hold =>
    dsimp only at hqueue' ⊢
    rw [hqueue', hqueue, List.cons_append] at hold
    obtain ⟨heq, -⟩ := List.cons.inj hold
    rw [(Prod.mk.inj heq).2]
    exact given_flagged f' u
  | @scored rest₁ q v f₁ state hold =>
    dsimp only at hqueue'
    rw [hqueue] at hold
    obtain ⟨heq, hrest⟩ := List.cons.inj hold
    rw [hqueue, List.map_cons, List.pairwise_cons, hrest, hqueue'] at hsorted
    have hlt := hsorted.1 r (by simp)
    exact absurd hlt (lt_irrefl r)
  | cleared hold =>
    rw [hqueue] at hold
    cases hold

/-- A job that left the line does not come back. -/
theorem Step.gone (hstep : Step l l') {r : ℕ} (hr : r ∉ l.queue.map Prod.fst) (hold : r < l.next) :
    r ∉ l'.queue.map Prod.fst ∧ r < l'.next := by
  cases hstep with
  | passed hn => exact ⟨hr, hold.trans_le hn⟩
  | missed => exact ⟨hr, hold.trans (Nat.lt_succ_self _)⟩
  | joined =>
    refine ⟨?_, hold.trans (Nat.lt_succ_self _)⟩
    dsimp only
    rw [List.map_append, List.mem_append, not_or]
    refine ⟨hr, fun hmem => ?_⟩
    have heq : r = l.next := by simpa using hmem
    omega
  | dropped hqueue =>
    rw [hqueue] at hr
    refine ⟨fun hmem => hr ?_, hold⟩
    simp only [List.map_append, List.map_cons, List.mem_append, List.mem_cons] at hmem ⊢
    tauto
  | droppedLast hqueue =>
    rw [hqueue] at hr
    refine ⟨fun hmem => hr ?_, hold⟩
    rw [List.map_append]
    exact List.mem_append_left _ hmem
  | scored hqueue =>
    rw [hqueue] at hr
    exact ⟨fun hmem => hr (List.mem_cons_of_mem _ hmem), hold⟩
  | cleared hqueue => exact ⟨hr, hold⟩

/-- The first job of the line stays there until it leaves. -/
theorem Kept.head_step (h : Kept l) (hstep : Step l l') {r : ℕ} {f : Bool}
    {rest : List (ℕ × Bool)} (hqueue : l.queue = (r, f) :: rest) :
    (∃ f' rest', l'.queue = (r, f') :: rest') ∨ (r ∉ l'.queue.map Prod.fst ∧ r < l'.next) := by
  have hold : r < l.next := h.lt_next (q := (r, f)) (by simp [chain, hqueue])
  have hsorted : (l.queue.map Prod.fst).Pairwise (· < ·) := by
    have hsorted := h.sorted
    unfold chain at hsorted
    rw [List.map_append] at hsorted
    exact (List.pairwise_append.1 hsorted).2.1
  rw [hqueue, List.map_cons, List.pairwise_cons] at hsorted
  have hrest : r ∉ rest.map Prod.fst := fun hmem => lt_irrefl r (hsorted.1 r hmem)
  cases hstep with
  | passed hn => exact Or.inl ⟨f, rest, hqueue⟩
  | missed => exact Or.inl ⟨f, rest, hqueue⟩
  | joined => exact Or.inl ⟨f, rest ++ [(l.next, resets l.held)], by rw [hqueue]; rfl⟩
  | @dropped front back m y f₁ g hdropped =>
    cases front with
    | nil =>
      rw [hqueue] at hdropped
      refine Or.inr ⟨?_, hold⟩
      rw [(List.cons.inj hdropped).2] at hrest
      exact hrest
    | cons head front =>
      rw [hqueue, List.cons_append] at hdropped
      exact Or.inl ⟨f, front ++ (y, true) :: back, by rw [← (List.cons.inj hdropped).1]; rfl⟩
  | @droppedLast front m f₁ hdropped =>
    cases front with
    | nil => exact Or.inr ⟨List.not_mem_nil, hold⟩
    | cons head front =>
      rw [hqueue, List.cons_append] at hdropped
      exact Or.inl ⟨f, front, by rw [← (List.cons.inj hdropped).1]⟩
  | scored hscored =>
    rw [hqueue] at hscored
    refine Or.inr ⟨?_, hold⟩
    rw [(List.cons.inj hscored).2] at hrest
    exact hrest
  | cleared hcleared =>
    rw [hqueue] at hcleared
    cases hcleared

theorem Kept.steps (h : Kept l) (hsteps : Relation.ReflTransGen Step l l') : Kept l' := by
  induction hsteps with
  | refl => exact h
  | tail _ hstep ih => exact ih.step hstep

/-- **What the first job of the line is given stays** until it leaves. -/
theorem Kept.given_steps (h : Kept l) (hsteps : Relation.ReflTransGen Step l l') {r : ℕ} {f : Bool}
    {rest : List (ℕ × Bool)} (hqueue : l.queue = (r, f) :: rest) :
    (∃ f' rest', l'.queue = (r, f') :: rest' ∧
      ∀ u, Sidecar.given f' l'.held u = Sidecar.given f l.held u) ∨
    (r ∉ l'.queue.map Prod.fst ∧ r < l'.next) := by
  induction hsteps with
  | refl => exact Or.inl ⟨f, rest, hqueue, fun _ => rfl⟩
  | @tail l₁ l₂ hbefore hstep ih =>
    rcases ih with ⟨f₁, rest₁, hqueue₁, hgiven⟩ | ⟨hgone, hold⟩
    · have hkept := h.steps hbefore
      rcases hkept.head_step hstep hqueue₁ with ⟨f₂, rest₂, hqueue₂⟩ | hgone
      · refine Or.inl ⟨f₂, rest₂, hqueue₂, fun u => ?_⟩
        exact (hkept.given_step hstep hqueue₁ hqueue₂).trans (hgiven u)
      · exact Or.inr hgone
    · exact Or.inr (hstep.gone hgone hold)

theorem kept_first : Kept ({} : Line σ) := by
  refine ⟨List.Pairwise.nil, ?_, ?_, trivial, fun _ => rfl, ?_, List.Pairwise.nil, ?_,
    List.Pairwise.nil, ?_, lawful_nil⟩
  · intro q hq
    cases hq
  · intro q hq
    cases hq
  · intro e he
    cases he
  · intro r hr
    cases hr
  · intro r hr
    cases hr

end Kept

end Line

end Sidecar

end Tensorplate
