import Tensorplate.Stream.Line

/-!
# One write at a time, one end

Beside the line, every run keeps that an end that is wanted is decided as
soon as nothing is being written, and that the call has at most one place
among the refused. The contract of the write path is read off the three.
-/

namespace Tensorplate

namespace Stream

open Serving Lib

variable {ι : Type}

section Steps

variable {w w' : World ι}

/-! ## The end is not put off -/

/-- Where an end is wanted and nothing is being written, it is decided. -/
def Ended (out : CallOutput ι) : Prop :=
  out.finishWanted.isSome = true → out.writing = false → out.writer = true → out.finished = true

theorem ended_finishLocked (w : World ι) : Ended w.finishLocked.1.out := by
  unfold World.finishLocked
  intro hwanted hwriting hwriter
  rcases hw : w.out.finishWanted with _ | s
  · rw [hw] at hwanted
    simp [hw] at hwanted
  · rfl

theorem ended_nextLocked (w : World ι) : Ended w.nextLocked.1.out := by
  unfold World.nextLocked
  split_ifs with hstop htake
  · intro hwanted hwriting hwriter
    simp only [Bool.or_eq_true, Bool.not_eq_true'] at hstop
    rcases hstop with (hstop | hstop) | hstop
    · rw [hwriter] at hstop
      cases hstop
    · rw [hwriting] at hstop
      cases hstop
    · exact hstop
  · rcases w.queue.take with ⟨queue, _ | x⟩
    · exact ended_finishLocked w
    · dsimp only
      unfold World.writeLocked
      split
      · exact ended_finishLocked _
      · intro _ hwriting
        cases hwriting
  · exact ended_finishLocked w

/-- What of the write path a step that decides on nothing leaves alone. -/
structure Still (out out' : CallOutput ι) : Prop where
  finishWanted : out'.finishWanted = out.finishWanted
  writing : out'.writing = out.writing
  writer : out'.writer = out.writer
  finished : out'.finished = out.finished
  refused : out'.refused = out.refused

theorem Still.refl (out : CallOutput ι) : Still out out := ⟨rfl, rfl, rfl, rfl, rfl⟩

theorem Still.ended {out out' : CallOutput ι} (hsame : Still out out') (h : Ended out) :
    Ended out' := by
  intro hwanted hwriting hwriter
  rw [hsame.finished]
  rw [hsame.finishWanted] at hwanted
  rw [hsame.writing] at hwriting
  rw [hsame.writer] at hwriter
  exact h hwanted hwriting hwriter

theorem still_bind (out : CallOutput ι) (delivered : Bool) (format : StreamAudioFormat) :
    Still out (out.bind delivered format) := by
  unfold CallOutput.bind
  split_ifs <;> exact ⟨rfl, rfl, rfl, rfl, rfl⟩

theorem still_sessionEnded (out : CallOutput ι) (now : TimePoint) :
    Still out (out.sessionEnded now) := by
  unfold CallOutput.sessionEnded
  split_ifs <;> exact ⟨rfl, rfl, rfl, rfl, rfl⟩

theorem still_cancelIfStalled (out : CallOutput ι) (now : TimePoint) :
    Still out (out.cancelIfStalled now).1 := by
  obtain ⟨c, hc⟩ := cancelIfStalled_fst out now
  rw [hc]
  exact ⟨rfl, rfl, rfl, rfl, rfl⟩

/-- Whether a place was taken. -/
def Event.isEntered : Event ι → Bool
  | .entered => true
  | _ => false

/-- Whether a place was given back. -/
def Event.isLeft : Event ι → Bool
  | .left => true
  | _ => false

/-- The places the call took and those it gave back. -/
def seats (log : List (Event ι)) : ℕ × ℕ := (log.countP Event.isEntered, log.countP Event.isLeft)

theorem seats_concat {log : List (Event ι)} {e : Event ι} (h₁ : e.isEntered = false)
    (h₂ : e.isLeft = false) : seats (log ++ [e]) = seats log := by
  simp [seats, h₁, h₂]

/-- A step that takes no place and decides on nothing. -/
structure Quiet (w w' : World ι) : Prop where
  still : Still w.out w'.out
  places : w'.refusedCalls = w.refusedCalls
  others : w'.others = w.others
  seats : seats w'.log = seats w.log

/-- What a caller does before it decides: it may ask for the end or answer
a write, or take a place and ask for the end. -/
inductive Asks (w : World ι) : World ι → Prop
  | plain {w₁ : World ι} : w₁.out.refused = w.out.refused → w₁.out.writer = w.out.writer →
      (w.out.finishWanted.isSome = true → w₁.out.finishWanted.isSome = true) →
      w₁.refusedCalls = w.refusedCalls → w₁.others = w.others → seats w₁.log = seats w.log →
      Asks w w₁
  | entered {w₁ : World ι} : w.out.finishWanted = none → w.out.writer = true →
      w.refusedCalls.held < w.refusedCalls.places →
      w₁.out.refused = true → w₁.out.writer = true → w₁.out.finishWanted.isSome = true →
      w₁.refusedCalls = { w.refusedCalls with held := w.refusedCalls.held + 1 } →
      w₁.others = w.others → seats w₁.log = ((seats w.log).1 + 1, (seats w.log).2) → Asks w w₁

/-- Another call takes a place or gives one back. -/
inductive Elsewhere (w : World ι) : World ι → Prop
  | enters : w.refusedCalls.held < w.refusedCalls.places →
      Elsewhere w { w with
        refusedCalls := { w.refusedCalls with held := w.refusedCalls.held + 1 }
        others := w.others + 1 }
  | leaves : 0 < w.others →
      Elsewhere w { w with refusedCalls := w.refusedCalls.leave, others := w.others - 1 }

theorem Quiet.refl (w : World ι) : Quiet w w := ⟨Still.refl _, rfl, rfl, rfl⟩

theorem quiet_confirm (w : World ι) (ok : Bool) (now : TimePoint) : Quiet w (w.confirm ok now) := by
  unfold World.confirm
  dsimp only
  split_ifs
  · split
    · exact ⟨Still.refl _, rfl, rfl, seats_concat rfl rfl⟩
    · exact ⟨Still.refl _, rfl, rfl, rfl⟩
  · exact ⟨Still.refl _, rfl, rfl, rfl⟩

theorem quiet_tell (w : World ι) (ok : Bool) (now : TimePoint) (kind : OutputKind)
    (confirmed : Bool) : Quiet w (w.tell ok now kind confirmed) := by
  unfold World.tell
  split_ifs
  · exact ⟨Still.refl _, rfl, rfl, seats_concat rfl rfl⟩
  · exact ⟨Still.refl _, rfl, rfl, rfl⟩

theorem enter_cases (r : RefusedCalls) :
    (r.enter = (r, false)) ∨
      (r.held < r.places ∧ r.enter = ({ r with held := r.held + 1 }, true)) := by
  unfold RefusedCalls.enter
  split_ifs with hfull
  · exact .inl rfl
  · exact .inr ⟨by omega, rfl⟩

theorem asks_refuse (w : World ι) (s : Status) :
    w.refuse s = w ∨ ∃ w₁ t, Asks w w₁ ∧ w.refuse s = w₁.nextLocked.1.spawn t := by
  unfold World.refuse
  split_ifs with hstop
  · exact .inl rfl
  · simp only [Bool.or_eq_true, Bool.not_eq_true', not_or, Bool.not_eq_true, Bool.not_eq_false,
      Option.isSome_eq_false_iff, Option.isNone_iff_eq_none] at hstop
    refine .inr ?_
    rcases enter_cases w.refusedCalls with henter | ⟨hroom, henter⟩
    · rw [henter]
      refine ⟨_, _, ?_, rfl⟩
      exact .plain rfl rfl (fun _ => rfl) rfl rfl rfl
    · rw [henter]
      refine ⟨_, _, ?_, rfl⟩
      refine .entered hstop.1 hstop.2 hroom rfl hstop.2 rfl rfl rfl ?_
      simp [World.record, seats, Event.isEntered, Event.isLeft]

theorem isSome_wantedAfter {out : CallOutput ι} {ok : Bool} {kind : OutputKind}
    (h : out.finishWanted.isSome = true) : (World.wantedAfter out ok kind).isSome = true := by
  rw [World.wantedAfter, if_pos h]
  exact h

/-- **What a step can do** to the end of the call and to its place. -/
theorem step_cases {a : Action ι} (hs : w.step a = some w') :
    Quiet w w' ∨ (∃ w₁ t, Asks w w₁ ∧ w' = w₁.nextLocked.1.spawn t) ∨ w' = w.detach ∨
      Elsewhere w w' := by
  cases a with
  | bind delivered format =>
    cases hs
    exact .inl ⟨still_bind w.out delivered format, rfl, rfl, rfl⟩
  | setEndStatus status =>
    cases hs
    exact .inl ⟨⟨rfl, rfl, rfl, rfl, rfl⟩, rfl, rfl, rfl⟩
  | pump =>
    cases hs
    exact .inr (.inl ⟨w, _, .plain rfl rfl (fun h => h) rfl rfl rfl, rfl⟩)
  | finish status =>
    cases hs
    refine .inr (.inl ⟨_, _, ?_, rfl⟩)
    exact .plain rfl rfl (fun _ => rfl) rfl rfl rfl
  | refuse status =>
    simp only [World.step] at hs
    split_ifs at hs
    cases hs
    rcases asks_refuse w status with hw | hw
    · rw [hw]
      exact .inl (Quiet.refl w)
    · exact .inr (.inl hw)
  | detach =>
    simp only [World.step] at hs
    split_ifs at hs
    cases hs
    exact .inr (.inr (.inl rfl))
  | sessionEnded now =>
    cases hs
    exact .inl ⟨still_sessionEnded w.out now, rfl, rfl, rfl⟩
  | cancelIfStalled now =>
    have hstill := still_cancelIfStalled w.out now
    simp only [World.step] at hs
    split_ifs at hs
    rcases hr : w.out.cancelIfStalled now with ⟨out, _ | _, due⟩
    · rw [hr] at hs hstill
      cases hs
      exact .inl ⟨hstill, rfl, rfl, rfl⟩
    · rw [hr] at hs hstill
      cases hs
      exact .inl ⟨hstill, rfl, rfl, rfl⟩
  | writeDone ok now =>
    simp only [World.step] at hs
    split_ifs at hs
    cases hs
    exact .inl ⟨Still.refl _, rfl, rfl, seats_concat rfl rfl⟩
  | finishDone =>
    simp only [World.step] at hs
    split_ifs at hs
    cases hs
    exact .inl ⟨Still.refl _, rfl, rfl, rfl⟩
  | offer item now =>
    cases hs
    exact .inl ⟨Still.refl _, rfl, rfl, rfl⟩
  | suppress =>
    cases hs
    exact .inl ⟨Still.refl _, rfl, rfl, rfl⟩
  | thread i =>
    simp only [World.step] at hs
    split at hs
    · rename_i t ht
      cases hs
      rcases t with (_ | _ | s) | step | ⟨ok, now⟩ | ⟨ok, now, kind, confirmed⟩ | ⟨ok, now, kind⟩
      · exact .inl ⟨Still.refl _, rfl, rfl, rfl⟩
      · exact .inl ⟨Still.refl _, rfl, rfl, seats_concat rfl rfl⟩
      · exact .inl ⟨Still.refl _, rfl, rfl, seats_concat rfl rfl⟩
      · exact .inl ⟨Still.refl _, rfl, rfl, seats_concat rfl rfl⟩
      · obtain ⟨h₁, h₂, h₃, h₄⟩ := quiet_confirm { w with threads := w.threads.eraseIdx i } ok now
        exact .inl ⟨h₁, h₂, h₃, h₄⟩
      · obtain ⟨h₁, h₂, h₃, h₄⟩ :=
          quiet_tell { w with threads := w.threads.eraseIdx i } ok now kind confirmed
        exact .inl ⟨h₁, h₂, h₃, h₄⟩
      · refine .inr (.inl ⟨_, _, ?_, rfl⟩)
        exact .plain rfl rfl isSome_wantedAfter rfl rfl rfl
    · cases hs
  | otherEnters =>
    simp only [World.step] at hs
    rcases enter_cases w.refusedCalls with henter | ⟨hroom, henter⟩
    · rw [henter] at hs
      cases hs
      exact .inl (Quiet.refl w)
    · rw [henter] at hs
      cases hs
      exact .inr (.inr (.inr (.enters hroom)))
  | otherLeaves =>
    simp only [World.step] at hs
    split_ifs at hs with hpos
    cases hs
    exact .inr (.inr (.inr (.leaves hpos)))

theorem Ended.step {a : Action ι} (h : Ended w.out) (hs : w.step a = some w') : Ended w'.out := by
  rcases step_cases hs with hquiet | ⟨w₁, t, -, rfl⟩ | rfl | helse
  · exact hquiet.still.ended h
  · exact ended_nextLocked w₁
  · intro _ _ hwriter
    unfold World.detach at hwriter
    split_ifs at hwriter
    cases hwriter
  · cases helse <;> exact h

/-! ## Places -/

/-- **The call's place among the refused**: it has at most one, from its
refusal until its writer is gone. -/
structure Placed (w : World ι) : Prop where
  held : w.refusedCalls.held = w.others + if w.out.refused then 1 else 0
  back : (seats w.log).1 = (seats w.log).2 + if w.out.refused then 1 else 0
  once : (seats w.log).1 ≤ 1
  wanted : (seats w.log).1 = 1 → w.out.finishWanted.isSome = true
  gone : w.out.writer = false → w.out.refused = false

/-- Deciding on a step moves no place. -/
theorem finishLocked_apart (w : World ι) : w.finishLocked.1.out.refused = w.out.refused ∧
    w.finishLocked.1.out.writer = w.out.writer ∧
    w.finishLocked.1.out.finishWanted = w.out.finishWanted ∧
    w.finishLocked.1.refusedCalls = w.refusedCalls ∧ w.finishLocked.1.others = w.others ∧
    w.finishLocked.1.log = w.log := by
  unfold World.finishLocked
  rcases hw : w.out.finishWanted with _ | s
  · exact ⟨rfl, rfl, hw, rfl, rfl, rfl⟩
  · exact ⟨rfl, rfl, hw, rfl, rfl, rfl⟩

theorem encodeLocked_apart (out : CallOutput ι) (body : Option (Body ι)) :
    (out.encodeLocked body).1.refused = out.refused ∧
      (out.encodeLocked body).1.writer = out.writer ∧
      (out.encodeLocked body).1.finishWanted = out.finishWanted := by
  unfold CallOutput.encodeLocked
  split
  · split <;> exact ⟨rfl, rfl, rfl⟩
  · unfold CallOutput.addTotals
    dsimp only
    split <;> exact ⟨rfl, rfl, rfl⟩
  · exact ⟨rfl, rfl, rfl⟩
  · exact ⟨rfl, rfl, rfl⟩

theorem asks_nextLocked (w : World ι) : Asks w w.nextLocked.1 := by
  obtain ⟨h₁, h₂, h₃, h₄, h₅, h₆⟩ := finishLocked_apart w
  have hfinish : Asks w w.finishLocked.1 :=
    .plain h₁ h₂ (fun h => h₃ ▸ h) h₄ h₅ (congrArg seats h₆)
  unfold World.nextLocked
  split_ifs with hstop htake
  · exact .plain rfl rfl (fun h => h) rfl rfl rfl
  · rw [Bool.and_eq_true, Option.isNone_iff_eq_none] at htake
    rcases w.queue.take with ⟨queue, _ | x⟩
    · exact hfinish
    · dsimp only
      have hnone : ∀ {p : Prop}, w.out.finishWanted.isSome = true → p := by
        intro p hsome
        rw [htake.1] at hsome
        cases hsome
      obtain ⟨e₁, e₂, -⟩ := encodeLocked_apart w.out x.item.body
      unfold World.writeLocked
      split
      · rename_i out heq
        have heq' : w.out.encodeLocked x.item.body = (out, none) := heq
        rw [heq'] at e₁ e₂
        obtain ⟨h₁, h₂, -, h₄, h₅, h₆⟩ := finishLocked_apart
          { ({ w with queue := queue }.record (.taken x)) with
            out := { out with finishWanted := some Status.cannotSend } }
        exact .plain (h₁.trans e₁) (h₂.trans e₂) hnone h₄ h₅
          ((congrArg seats h₆).trans (seats_concat rfl rfl))
      · rename_i out body heq
        have heq' : w.out.encodeLocked x.item.body = (out, some body) := heq
        rw [heq'] at e₁ e₂
        exact .plain e₁ e₂ hnone rfl rfl (seats_concat rfl rfl)
  · exact hfinish

theorem Placed.asks {w₁ : World ι} (h : Placed w) (ha : Asks w w₁) : Placed w₁ := by
  cases ha with
  | plain hrefused hwriter hwanted hplaces hothers hseats =>
    refine ⟨?_, ?_, ?_, ?_, ?_⟩
    · rw [hplaces, hothers, hrefused]
      exact h.held
    · rw [hseats, hrefused]
      exact h.back
    · rw [hseats]
      exact h.once
    · rw [hseats]
      exact fun hone => hwanted (h.wanted hone)
    · rw [hwriter, hrefused]
      exact h.gone
  | entered hnone hwriter hroom hrefused hwriter₁ hwanted hplaces hothers hseats =>
    have hheld := h.held
    have hback := h.back
    -- A call that took a place before would be ending already.
    have hzero : (seats w.log).1 = 0 := by
      have honce := h.once
      by_contra hne
      have hone := h.wanted (by omega)
      rw [hnone] at hone
      cases hone
    refine ⟨?_, ?_, ?_, fun _ => hwanted, ?_⟩
    · rw [hplaces, hothers, hrefused, if_pos rfl]
      dsimp only
      split_ifs at hheld hback <;> omega
    · rw [hseats, hrefused, if_pos rfl]
      dsimp only
      split_ifs at hback <;> omega
    · rw [hseats]
      dsimp only
      omega
    · rw [hwriter₁]
      intro hgone
      cases hgone

theorem Placed.detach (h : Placed w) : Placed w.detach := by
  have hheld := h.held
  have hback := h.back
  unfold World.detach
  split_ifs with hrefused
  · have hseats : seats (w.log ++ [Event.left]) = ((seats w.log).1, (seats w.log).2 + 1) := by
      simp [seats, Event.isEntered, Event.isLeft]
    rw [if_pos hrefused] at hheld hback
    refine ⟨?_, ?_, ?_, ?_, fun _ => rfl⟩
    · change w.refusedCalls.held - 1 = w.others + 0
      omega
    · change (seats (w.log ++ [Event.left])).1 = (seats (w.log ++ [Event.left])).2 + 0
      rw [hseats]
      dsimp only
      omega
    · change (seats (w.log ++ [Event.left])).1 ≤ 1
      rw [hseats]
      exact h.once
    · change (seats (w.log ++ [Event.left])).1 = 1 → w.out.finishWanted.isSome = true
      rw [hseats]
      exact h.wanted
  · rw [if_neg hrefused] at hheld hback
    exact ⟨hheld, hback, h.once, h.wanted, fun _ => rfl⟩

theorem Placed.step {a : Action ι} (h : Placed w) (hs : w.step a = some w') : Placed w' := by
  rcases step_cases hs with hquiet | ⟨w₁, t, hasks, rfl⟩ | rfl | helse
  · obtain ⟨hstill, hplaces, hothers, hseats⟩ := hquiet
    refine h.asks (.plain hstill.refused hstill.writer ?_ hplaces hothers hseats)
    rw [hstill.finishWanted]
    exact fun hsome => hsome
  · obtain ⟨h₁, h₂, h₃, h₄, h₅⟩ := (h.asks hasks).asks (asks_nextLocked w₁)
    exact ⟨h₁, h₂, h₃, h₄, h₅⟩
  · exact h.detach
  · have hheld := h.held
    cases helse with
    | enters hroom =>
      refine ⟨?_, h.back, h.once, h.wanted, h.gone⟩
      dsimp only
      omega
    | leaves hpos =>
      refine ⟨?_, h.back, h.once, h.wanted, h.gone⟩
      dsimp only [RefusedCalls.leave]
      omega

end Steps

/-! ## Every run -/

section Runs

variable {w : World ι} {done : List (SequencedOutput (Body ι))} {hand : Hand ι} {ending : Ending}

/-- A call that has just begun. `others` refused calls have a place. -/
def World.start (budgets : SessionBudgets) (places others : ℕ) : World ι where
  queue := .ofBudgets budgets
  refusedCalls := ⟨places, others⟩
  others := others

theorem line_start (budgets : SessionBudgets) (places others : ℕ) :
    Line (World.start (ι := ι) budgets places others) [] none .awaited := by
  constructor
  case wanted => exact fun s hs => nomatch hs
  case rests => exact fun hs => nomatch hs
  case stops => rintro ⟨x, stage, hx, -⟩; cases hx
  case terminal => rintro ⟨x, hx, -⟩; cases hx
  case kind => exact fun x stage hx => nomatch hx
  case buffer => exact fun x hx => nomatch hx
  case sent => exact fun x hx => nomatch hx
  case held => exact fun x stage hx => nomatch hx
  case counted => exact ⟨rfl, rfl, rfl⟩
  case bound => exact fun _ => ⟨rfl, rfl⟩
  case answered => exact fun ha => nomatch ha
  case gone => exact fun hg => nomatch hg
  all_goals rfl

/-- **What every run keeps.** -/
theorem kept_run {budgets : SessionBudgets} {places others : ℕ}
    (hrun : Run World.step Free (World.start (ι := ι) budgets places others) w) :
    Kept w ∧ Ended w.out ∧ Placed w := by
  refine hrun.invariant (I := fun w => Kept w ∧ Ended w.out ∧ Placed w) ⟨?_, ?_, ?_⟩ ?_
  · exact ⟨[], none, .awaited, line_start budgets places others⟩
  · intro hwanted
    cases hwanted
  · exact ⟨rfl, rfl, Nat.zero_le 1, (fun hone => nomatch hone), fun hg => nomatch hg⟩
  · rintro s a t ⟨hkept, hended, hplaced⟩ - hs
    exact ⟨hkept.step hs, hended.step hs, hplaced.step hs⟩

/-- Whether a write was started. -/
def Event.isWritten : Event ι → Bool
  | .written _ => true
  | _ => false

/-- Whether a write was answered. -/
def Event.isAnswered : Event ι → Bool
  | .answered _ => true
  | _ => false

theorem countP_wire {p : Event ι → Bool} (hp : ∀ e, p e = true → e.onWire = true)
    (log : List (Event ι)) : (log.filter Event.onWire).countP p = log.countP p := by
  rw [List.countP_filter]
  apply List.countP_congr
  intro e _
  have := hp e
  simp only [Bool.and_eq_true, and_iff_left_iff_imp]
  exact this

theorem isWritten_onWire (e : Event ι) (h : e.isWritten = true) : e.onWire = true := by
  cases e <;> simp [Event.isWritten] at h
  rfl

theorem isAnswered_onWire (e : Event ι) (h : e.isAnswered = true) : e.onWire = true := by
  cases e <;> simp [Event.isAnswered] at h
  rfl

theorem balanced_deliveries (hears : Bool) (format : StreamAudioFormat) :
    ∀ (items before : List (SequencedOutput (Body ι))),
      (deliveries hears format before items).countP Event.isWritten =
        (deliveries hears format before items).countP Event.isAnswered := by
  intro items
  induction items with
  | nil =>
    intro before
    rfl
  | cons x rest ih =>
    intro before
    have hone : (delivery hears format before x).countP Event.isWritten =
        (delivery hears format before x).countP Event.isAnswered := by
      cases hears <;> rfl
    rw [deliveries, List.countP_append, List.countP_append, ih, hone]

theorem balanced_events (hand : Hand ι) (hears : Bool) (format : StreamAudioFormat)
    (before : List (SequencedOutput (Body ι))) :
    (hand.events hears format before).countP Event.isWritten =
      (hand.events hears format before).countP Event.isAnswered + hand.sent := by
  rcases hand with _ | ⟨x, stage⟩
  · rfl
  · cases stage
    case settling now => cases hears <;> rfl
    all_goals rfl

/-- A write that was not answered is the transport's. -/
theorem Line.balanced (h : Line w done hand ending) :
    w.log.countP Event.isWritten = w.log.countP Event.isAnswered + w.unanswered := by
  rw [← countP_wire (p := Event.isWritten) isWritten_onWire,
    ← countP_wire (p := Event.isAnswered) isAnswered_onWire, h.log, h.unanswered]
  simp only [List.countP_append, balanced_deliveries, balanced_events]
  have hend : (ending.events : List (Event ι)).countP Event.isWritten = 0 ∧
      (ending.events : List (Event ι)).countP Event.isAnswered = 0 := by
    rcases ending with _ | ⟨s, c⟩ | s <;> exact ⟨rfl, rfl⟩
  omega

theorem Hand.sent_le_one (hand : Hand ι) : hand.sent ≤ 1 := by
  rcases hand with _ | ⟨x, stage⟩
  · exact Nat.zero_le 1
  · cases stage <;> simp [Hand.sent, Stage.sent]

/-- An end in the log is the last event of the wire. -/
theorem eq_of_isFinished {A P Q : List (Event ι)} {e f : Event ι}
    (hA : ∀ a ∈ A, a.isFinished = false) (hf : f.isFinished = true)
    (h : A ++ [e] = P ++ f :: Q) : P = A ∧ Q = [] := by
  induction A generalizing P with
  | nil =>
    rcases P with _ | ⟨b, P⟩
    · simp only [List.nil_append, List.cons.injEq] at h
      exact ⟨rfl, h.2.symm⟩
    · simp at h
  | cons a A ih =>
    rcases P with _ | ⟨b, P⟩
    · simp only [List.nil_append, List.cons_append, List.cons.injEq] at h
      have ha := hA a List.mem_cons_self
      rw [h.1, hf] at ha
      cases ha
    · simp only [List.cons_append, List.cons.injEq] at h
      obtain ⟨rfl, rfl⟩ := ih (fun c hc => hA c (List.mem_cons_of_mem a hc)) h.2
      exact ⟨by rw [h.1], rfl⟩

/-- **The end comes once**, when every write is answered, and nothing is
written behind it. -/
theorem Line.ends_once (h : Line w done hand ending) {front back : List (Event ι)} {s : Status}
    (hlog : w.log = front ++ .finished s :: back) :
    front.countP Event.isWritten = front.countP Event.isAnswered ∧
      ∀ e ∈ back, e.isWritten = false ∧ e.isFinished = false := by
  have hany : w.log.any Event.isFinished = true := by
    rw [hlog]
    simp [Event.isFinished]
  obtain ⟨s', rfl⟩ := h.called_of_any hany
  have hwire := h.log
  rw [hlog, List.filter_append, List.filter_cons_of_pos rfl, Ending.events, ← List.append_assoc]
    at hwire
  obtain ⟨hfront, hback⟩ := eq_of_isFinished h.isFinished_before rfl hwire.symm
  refine ⟨?_, ?_⟩
  · rw [← countP_wire (p := Event.isWritten) isWritten_onWire,
      ← countP_wire (p := Event.isAnswered) isAnswered_onWire, hfront, List.countP_append,
      List.countP_append, balanced_deliveries, balanced_events]
    have hrests := h.rests rfl
    have hsent : hand.sent = 0 := by
      rcases hand with _ | ⟨x, stage⟩
      · rfl
      · cases stage <;> simp [Hand.live, Stage.dead] at hrests <;> rfl
    omega
  · intro e he
    rw [List.filter_eq_nil_iff] at hback
    have hoff := hback e he
    cases e <;> simp [Event.onWire, Event.isWritten, Event.isFinished] at hoff ⊢

/-- **A terminal written ends the call** with the status asked for before,
or with the end status. -/
theorem Line.terminal_ends (h : Line w done hand ending) {i : ℕ} {now : TimePoint}
    (ht : w.threads[i]? = some (.settling true now .terminal)) :
    ∃ w', w.step (.thread i) = some w' ∧
      .running (.finish (w.out.finishWanted.getD w.out.endStatus)) ∈ w'.threads := by
  obtain ⟨hholder, -⟩ := h.leave_writer ht rfl
  have hlive : hand.live = true := by
    rcases hand with _ | ⟨x, stage⟩
    · cases hholder
    · cases stage <;> simp [Hand.holders, Stage.holders] at hholder
      rfl
  have hfinished : w.out.finished = false := by
    rw [h.finished, Bool.eq_false_iff]
    intro hsome
    rw [h.rests hsome] at hlive
    cases hlive
  have hwriter : w.out.writer = true := by
    rw [← Bool.not_eq_false]
    intro hgone
    obtain ⟨s, rfl⟩ := h.gone hgone
    rw [h.finished] at hfinished
    cases hfinished
  have hwanted : World.wantedAfter w.out true .terminal =
      some (w.out.finishWanted.getD w.out.endStatus) := by
    unfold World.wantedAfter
    rcases w.out.finishWanted with _ | s <;> rfl
  refine ⟨_, by rw [World.step, ht], ?_⟩
  simp [World.advance, World.settle, World.decideNext, World.nextLocked, World.finishLocked,
    World.spawn, hwriter, hfinished, hwanted]

/-- **The contract of a call's output.** Along every run at most one write
is unanswered, and the writes started are those answered and it. The call
ends once, with every write answered and nothing written behind it. What
the wire sees are the deliveries of the items taken, one after another in
sequence order, then what is in hand of the next item, then the end: each
write is confirmed and told before the next item is taken, an item that
cannot be sent is the last one taken, and a closed session carries the
totals of the items before it. A terminal that was written ends the call
with the end status, or the one asked for before; and the call gives a
place among the refused back once, no later than its writer is gone. -/
theorem call_output_contract {budgets : SessionBudgets} {places others : ℕ}
    (hrun : Run World.step Free (World.start (ι := ι) budgets places others) w) :
    (w.unanswered ≤ 1 ∧
      w.log.countP Event.isWritten = w.log.countP Event.isAnswered + w.unanswered) ∧
    (∀ front s back, w.log = front ++ .finished s :: back →
      front.countP Event.isWritten = front.countP Event.isAnswered ∧
      ∀ e ∈ back, e.isWritten = false ∧ e.isFinished = false) ∧
    (∃ (done : List (SequencedOutput (Body ι))) (hand : Hand ι) (ending : Ending),
      w.log.filter Event.onWire = deliveries w.out.delivered w.out.format [] done ++
        (hand.events w.out.delivered w.out.format done ++ ending.events) ∧
      (done ++ hand.items).map SequencedOutput.sequence =
        List.range' 1 (done ++ hand.items).length ∧
      (∀ x ∈ done, sendable x = true) ∧
      (∀ x stage, hand = some (x, stage) → (stage = .unsendable ↔ sendable x = false)) ∧
      (ending.status.isSome = true → hand.live = false) ∧
      ((∃ x ∈ done, x.item.kind = .terminal) → ending.status.isSome = true)) ∧
    (∀ i now, w.threads[i]? = some (.settling true now .terminal) →
      ∃ w', w.step (.thread i) = some w' ∧
        .running (.finish (w.out.finishWanted.getD w.out.endStatus)) ∈ w'.threads) ∧
    ((seats w.log).1 ≤ 1 ∧ (seats w.log).2 ≤ (seats w.log).1 ∧
      (w.out.writer = false → (seats w.log).2 = (seats w.log).1) ∧
      w.refusedCalls.held = w.others + ((seats w.log).1 - (seats w.log).2)) := by
  obtain ⟨⟨done, hand, ending, h⟩, hended, hplaced⟩ := kept_run hrun
  refine ⟨⟨?_, h.balanced⟩, fun front s back hlog => h.ends_once hlog,
    ⟨done, hand, ending, h.log, ?_, h.sent, h.held, h.rests, ?_⟩,
    fun i now ht => h.terminal_ends ht, hplaced.once, ?_, ?_, ?_⟩
  · rw [h.unanswered]
    exact hand.sent_le_one
  · have hlength := congrArg List.length h.sequences
    rw [List.length_map, List.length_range'] at hlength
    rw [hlength]
    exact h.sequences
  · intro hterminal
    obtain ⟨hwanted, hrests⟩ := h.terminal hterminal
    rw [← h.finished]
    rcases hwriter : w.out.writer with _ | _
    · obtain ⟨s, rfl⟩ := h.gone hwriter
      exact h.finished
    · exact hended hwanted (h.writing.trans hrests) hwriter
  · have hback := hplaced.back
    omega
  · intro hgone
    have hback := hplaced.back
    rw [hplaced.gone hgone] at hback
    exact hback.symm
  · have hback := hplaced.back
    have hheld := hplaced.held
    split_ifs at hback hheld <;> omega

/-- A transcript and the end of its session, written while the call is
bound, and both delivered. -/
def sampleActions : List (Action Unit) :=
  [.bind true ⟨.pcmS16Le, 16000, 1⟩,
   .offer ⟨.result, 48, 1, some (.task (.finalTranscript 1 [] 16000 0))⟩ 5,
   .offer ⟨.terminal, 1, 0, some (.wireEvent (.sessionClosed () {}))⟩ 6,
   .setEndStatus ⟨.ok, "closed"⟩, .pump, .thread 0, .pump, .writeDone true 7, .thread 0, .thread 0,
   .thread 0, .thread 0, .thread 0, .writeDone true 8, .thread 0, .thread 0, .thread 0,
   .thread 0, .finishDone, .detach]

theorem sampleBudgets_shaped : SessionBudgets.shaped .audio 32000 0 0 0 := by
  refine ⟨?_, rfl, rfl, rfl⟩
  decide

/-- The budgets of a session with 32000 bytes of audio a second. -/
def sampleBudgets : SessionBudgets := ⟨.audio, 32000, 0, 0, 0, sampleBudgets_shaped⟩

set_option maxRecDepth 4000 in
theorem call_output_contract_sample :
    ∃ w, exec World.step (World.start sampleBudgets 4 2) sampleActions = some w ∧
      w.log.filter Event.onWire = deliveries true ⟨.pcmS16Le, 16000, 1⟩ []
        [⟨1, .result, 48, 1, some (.task (.finalTranscript 1 [] 16000 0))⟩,
         ⟨2, .terminal, 1, 0, some (.wireEvent (.sessionClosed () {}))⟩] ++
        [.finished ⟨.ok, "closed"⟩] ∧
      w.unanswered ≤ 1 := by
  obtain ⟨w, hw⟩ : ∃ w, exec World.step (World.start sampleBudgets 4 2) sampleActions = some w :=
    ⟨_, rfl⟩
  refine ⟨w, hw, ?_, (call_output_contract (Run.of_exec hw)).1.1⟩
  cases hw
  decide

end Runs

end Stream

end Tensorplate
