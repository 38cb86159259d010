import Tensorplate.Speech.Model.VadPolicy

/-!
# What voice detection decides

One observed frame either stays in silence, opens an utterance, or goes on
in one, which it may split at the longest and end in silence.
-/

namespace Tensorplate

namespace Serving

open Lib

namespace VadPolicy

variable {p p' : VadPolicy} {probability : Option ℚ} {outcome : VadFrameOutcome}

/-- The policy as a frame begins to be looked at. -/
def advanced (p : VadPolicy) : VadPolicy :=
  { p with nextFrame := p.nextFrame + p.profile.frameSamples }

/-- **A frame that was observed**, in silence or in speech. -/
theorem observe_ok (h : p.observe probability = (p', .ok outcome)) :
    ∃ speech, (p.utteranceStart = none ∧ p.advanced.inSilence speech p.nextFrame = (p', outcome)) ∨
      ∃ start, p.utteranceStart = some start ∧ p.advanced.inSpeech speech start = (p', outcome) := by
  unfold observe at h
  split at h
  · simp at h
  next probability =>
    split at h
    · simp at h
    simp only at h
    split at h
    · simp at h
    refine ⟨decide (probability ≥ p.profile.threshold), ?_⟩
    split at h
    · next start hstart =>
      simp only [Prod.mk.injEq, Except.ok.injEq] at h
      exact .inr ⟨start, hstart, Prod.ext h.1 h.2⟩
    · next hstart =>
      simp only [Prod.mk.injEq, Except.ok.injEq] at h
      exact .inl ⟨hstart, Prod.ext h.1 h.2⟩

/-! ## In speech -/

/-- The silent frames a frame in speech leaves. -/
def silentFrames (p : VadPolicy) (speech : Bool) : ℕ := if speech then 0 else p.runFrames + 1

/-- The frame ends its utterance in silence. -/
def Silences (p : VadPolicy) (speech : Bool) : Prop := p.silenceFrames ≤ p.silentFrames speech

/-- The frame takes its utterance to the longest, or past it. -/
def Splits (p : VadPolicy) (speech : Bool) (start : ℕ) : Prop :=
  p.nextFrame - start > p.maxUtterance ∨
    (p.nextFrame - start = p.maxUtterance ∧ ¬ p.Silences speech)

open Classical in
/-- **A frame in speech.** -/
theorem inSpeech_eq (p : VadPolicy) (speech : Bool) (start : ℕ) :
    p.inSpeech speech start =
      ({ p with
          utteranceStart := if p.Silences speech then none
            else if p.Splits speech start then some (start + p.maxUtterance)
            else p.utteranceStart
          speechStart := if p.Splits speech start then start + p.maxUtterance else p.speechStart
          floor := if p.Silences speech then p.nextFrame else p.floor
          runFrames := if p.Silences speech then 0 else p.silentFrames speech },
        { durationSplit := if p.Splits speech start then some (start + p.maxUtterance) else none
          silenceEndpoint := if p.Silences speech then some p.nextFrame else none }) := by
  have hsilences : decide ((if speech then 0 else p.runFrames + 1) ≥ p.silenceFrames) =
      decide (p.Silences speech) := decide_eq_decide.2 Iff.rfl
  have hsplits : (p.nextFrame - start > p.maxUtterance ∨ (p.nextFrame - start = p.maxUtterance ∧
      (!decide (p.Silences speech)) = true)) ↔ p.Splits speech start := by
    simp [Splits]
  unfold inSpeech
  simp only [hsilences, hsplits, decide_eq_true_eq]
  by_cases h₁ : p.Silences speech <;> by_cases h₂ : p.Splits speech start <;>
    simp [h₁, h₂, silentFrames]

/-- A split ends the utterance in speech at the longest. -/
theorem observe_split {split : ℕ} (h : p.observe probability = (p', .ok outcome))
    (hsplit : outcome.durationSplit = some split) :
    ∃ start, p.utteranceStart = some start ∧ split = start + p.maxUtterance := by
  obtain ⟨speech, ⟨-, hobs⟩ | ⟨start, hstart, hobs⟩⟩ := observe_ok h
  · have hout := congrArg (fun q => q.2.durationSplit) hobs
    simp only [hsplit] at hout
    unfold inSilence at hout
    split at hout
    · simp at hout
    simp only at hout
    split at hout <;> simp at hout
  · refine ⟨start, hstart, ?_⟩
    rw [inSpeech_eq, Prod.mk.injEq] at hobs
    obtain ⟨-, rfl⟩ := hobs
    simp only [Option.ite_none_right_eq_some, Option.some.injEq] at hsplit
    exact hsplit.2.symm

/-! ## The earliest start -/

/-- Where the next utterance may start, or the open one did: all is at or
before the next frame, and a speech run under way is not before the floor. -/
structure Placed (p : VadPolicy) : Prop where
  floor : p.floor ≤ p.nextFrame
  opened : ∀ start, p.utteranceStart = some start → start ≤ p.nextFrame
  run : p.utteranceStart = none → 0 < p.runFrames →
    p.floor ≤ p.runStart ∧ p.runStart ≤ p.nextFrame

/-- The first sample of the speech run under way, or of the next one. -/
def runBegin (p : VadPolicy) : ℕ := if p.runFrames > 0 then p.runStart else p.nextFrame

theorem padded_mono {x y : ℕ} (hx : p.floor ≤ x) (hxy : x ≤ y) : p.padded x ≤ p.padded y := by
  unfold padded
  split_ifs <;> omega

theorem padded_le {x : ℕ} (hx : p.floor ≤ x) : p.padded x ≤ x := by
  unfold padded
  split_ifs <;> omega

theorem earliest_open {start : ℕ} (h : p.utteranceStart = some start) :
    p.earliestUtteranceStart = start := by
  unfold earliestUtteranceStart
  rw [h]

theorem earliest_silent (h : p.utteranceStart = none) :
    p.earliestUtteranceStart = p.padded p.runBegin := by
  unfold earliestUtteranceStart
  rw [h]
  rfl

/-- Between runs the next frame starts the next one. -/
theorem earliest_between (hs : p.utteranceStart = none) (hr : p.runFrames = 0) :
    p.earliestUtteranceStart = p.padded p.nextFrame := by
  rw [earliest_silent hs, runBegin, if_neg (by omega)]

theorem earliest_running (hs : p.utteranceStart = none) (hr : 0 < p.runFrames) :
    p.earliestUtteranceStart = p.padded p.runStart := by
  rw [earliest_silent hs, runBegin, if_pos hr]

/-- At the floor there is nothing to pad with. -/
theorem earliest_at_floor (hs : p.utteranceStart = none) (hr : p.runFrames = 0)
    (hf : p.floor = p.nextFrame) : p.earliestUtteranceStart = p.nextFrame := by
  rw [earliest_between hs hr, padded, hf, if_neg (by omega)]

theorem Placed.runBegin (h : Placed p) (hsilent : p.utteranceStart = none) :
    p.floor ≤ p.runBegin ∧ p.runBegin ≤ p.nextFrame := by
  unfold VadPolicy.runBegin
  by_cases hrun : p.runFrames > 0
  · rw [if_pos hrun]
    exact h.run hsilent hrun
  · rw [if_neg hrun]
    exact ⟨h.floor, le_rfl⟩

theorem Placed.earliest_le (h : Placed p) : p.earliestUtteranceStart ≤ p.nextFrame := by
  rcases hs : p.utteranceStart with _ | start
  · obtain ⟨hlow, hhigh⟩ := h.runBegin hs
    rw [earliest_silent hs]
    exact Nat.le_trans (padded_le hlow) hhigh
  · rw [earliest_open hs]
    exact h.opened start hs

/-- What a step may do to the earliest start, and the starts it reports. -/
structure Forward (p p' : VadPolicy) (outcome : VadFrameOutcome) : Prop where
  placed : Placed p'
  earliest : p.earliestUtteranceStart ≤ p'.earliestUtteranceStart
  onset : ∀ start, outcome.onset = some start → p.earliestUtteranceStart ≤ start
  split : ∀ start, outcome.durationSplit = some start → p.earliestUtteranceStart ≤ start

/-- **A frame in silence.** The run it extends keeps its start, and a run
that breaks off gives way to the next frame. -/
theorem Placed.inSilence (h : Placed p) (hsilent : p.utteranceStart = none) (speech : Bool) :
    Forward p (p.advanced.inSilence speech p.nextFrame).1
      (p.advanced.inSilence speech p.nextFrame).2 := by
  obtain ⟨hlow, hhigh⟩ := h.runBegin hsilent
  have hfloor := h.floor
  have hbefore := earliest_silent hsilent
  have hadv : p.advanced.utteranceStart = none := hsilent
  unfold VadPolicy.inSilence
  cases speech with
  | false =>
    rw [if_pos (by decide)]
    have hnext : p.floor ≤ p.nextFrame + p.profile.frameSamples := by omega
    refine ⟨⟨hnext, fun start hs => ?_, fun _ hrun => absurd hrun (by simp)⟩, ?_, nofun, nofun⟩
    · exact absurd (hadv.symm.trans hs) (by simp)
    · have hmono : p.padded p.runBegin ≤ p.padded (p.nextFrame + p.profile.frameSamples) :=
        padded_mono hlow (by omega)
      have hafter := earliest_between (p := { p.advanced with runFrames := 0 }) hadv rfl
      rw [hbefore]
      exact Nat.le_trans hmono (Nat.le_of_eq hafter.symm)
  | true =>
    rw [if_neg (by decide)]
    -- the run's first frame is the one its start names
    have hbegin : (if p.advanced.runFrames = 0 then p.nextFrame else p.advanced.runStart) =
        p.runBegin := by
      unfold VadPolicy.runBegin
      rcases Nat.eq_zero_or_pos p.runFrames with hrun | hrun
      · rw [if_pos (show p.advanced.runFrames = 0 from hrun), if_neg (by omega)]
      · rw [if_neg (show ¬p.advanced.runFrames = 0 by show ¬p.runFrames = 0; omega), if_pos hrun]
        rfl
    dsimp only
    rw [hbegin]
    by_cases hshort : p.advanced.runFrames + 1 < p.advanced.minSpeechFrames
    · rw [if_pos hshort]
      have hplaced : p.floor ≤ p.nextFrame + p.profile.frameSamples := by omega
      refine ⟨⟨hplaced, fun start hs => ?_, fun _ _ => ⟨hlow, ?_⟩⟩, ?_, nofun, nofun⟩
      · exact absurd (hadv.symm.trans hs) (by simp)
      · show p.runBegin ≤ p.nextFrame + p.profile.frameSamples
        omega
      · have hafter := earliest_running (p := { p.advanced with
          runFrames := p.advanced.runFrames + 1, runStart := p.runBegin }) hadv (Nat.succ_pos _)
        rw [hbefore]
        exact Nat.le_of_eq hafter.symm
    · rw [if_neg hshort]
      have hstart : p.advanced.padded p.runBegin = p.padded p.runBegin := rfl
      have hle : p.padded p.runBegin ≤ p.nextFrame + p.profile.frameSamples :=
        Nat.le_trans (padded_le hlow) (by omega)
      have hplaced : p.floor ≤ p.nextFrame + p.profile.frameSamples := by omega
      refine ⟨⟨hplaced, fun start hs => ?_, fun hs => absurd hs (by simp)⟩, ?_, ?_, nofun⟩
      · rw [← Option.some.inj hs, hstart]
        exact hle
      · rw [hbefore]
        exact le_rfl
      · intro start hs
        rw [← Option.some.inj hs, hstart, hbefore]

/-- **A frame in speech.** A split moves the open utterance on, within the
audio scored; an endpoint moves the floor to the next frame. -/
theorem Placed.inSpeech (h : Placed p) {start : ℕ} (hopen : p.utteranceStart = some start)
    (speech : Bool) :
    Forward p (p.advanced.inSpeech speech start).1 (p.advanced.inSpeech speech start).2 := by
  have hle := h.opened start hopen
  have hfloor := h.floor
  have hbefore := earliest_open hopen
  have hadv : p.advanced.utteranceStart = some start := hopen
  have hnext : p.advanced.nextFrame = p.nextFrame + p.profile.frameSamples := rfl
  have hkept : p.advanced.floor ≤ p.advanced.nextFrame := by
    show p.floor ≤ p.nextFrame + p.profile.frameSamples
    omega
  have hsplit : p.advanced.Splits speech start →
      start + p.advanced.maxUtterance ≤ p.advanced.nextFrame := by
    intro hs
    rcases hs with hs | hs <;> omega
  rw [inSpeech_eq]
  by_cases hsil : p.advanced.Silences speech
  · simp only [if_pos hsil]
    refine ⟨⟨le_rfl, nofun, fun _ hrun => absurd hrun (by simp)⟩, ?_, nofun, ?_⟩
    · rw [hbefore]
      refine Nat.le_trans ?_ (Nat.le_of_eq (earliest_at_floor rfl rfl rfl).symm)
      show start ≤ p.advanced.nextFrame
      omega
    · intro split hs
      rw [hbefore]
      simp only [Option.ite_none_right_eq_some, Option.some.injEq] at hs
      omega
  · simp only [if_neg hsil]
    by_cases hsp : p.advanced.Splits speech start
    · have hmax := hsplit hsp
      simp only [if_pos hsp]
      refine ⟨⟨hkept, fun s hs => ?_, nofun⟩,
        ?_, nofun, fun s hs => ?_⟩
      · rw [← Option.some.inj hs]
        exact hmax
      · rw [hbefore]
        exact Nat.le_trans (Nat.le_add_right _ _) (Nat.le_of_eq (earliest_open rfl).symm)
      · rw [← Option.some.inj hs, hbefore]
        omega
    · simp only [if_neg hsp]
      refine ⟨⟨hkept, fun s hs => ?_,
        fun hs => absurd (hadv.symm.trans hs) (by simp)⟩, ?_, nofun, nofun⟩
      · rw [← Option.some.inj (hadv.symm.trans hs), hnext]
        omega
      · rw [hbefore]
        refine Nat.le_of_eq (earliest_open ?_).symm
        exact hadv

theorem Placed.observe (h : Placed p) (hobs : p.observe probability = (p', .ok outcome)) :
    Forward p p' outcome := by
  obtain ⟨speech, ⟨hsilent, hout⟩ | ⟨start, hopen, hout⟩⟩ := observe_ok hobs
  · have := h.inSilence hsilent speech
    rwa [hout] at this
  · have := h.inSpeech hopen speech
    rwa [hout] at this

theorem observe_error {refusal : Error} (h : p.observe probability = (p', .error refusal)) :
    p' = p := by
  unfold VadPolicy.observe at h
  split at h
  · exact (Prod.mk.inj h).1.symm
  · split at h
    · exact (Prod.mk.inj h).1.symm
    · dsimp only at h
      split at h
      · exact (Prod.mk.inj h).1.symm
      · exact absurd (Prod.mk.inj h).2 (by simp)

/-- **A reset** takes the floor and the next frame past all that was scored. -/
theorem Placed.reset (h : Placed p) (last : ℕ) : Forward p (p.reset last).1 {} := by
  unfold VadPolicy.reset
  by_cases hlast : last < p.nextFrame
  · rw [if_pos hlast]
    exact ⟨h, le_rfl, nofun, nofun⟩
  · rw [if_neg hlast]
    refine ⟨⟨le_rfl, nofun, fun _ hrun => absurd hrun (by simp)⟩, ?_, nofun, nofun⟩
    have hearliest := h.earliest_le
    refine Nat.le_trans ?_ (Nat.le_of_eq (earliest_at_floor rfl rfl rfl).symm)
    show p.earliestUtteranceStart ≤ last
    omega

end VadPolicy

/-! ## Runs -/

/-- A call of a session's voice detection. -/
inductive VadCall
  | observe (probability : Option ℚ)
  | reset (last : ℕ)
  /-- `let_go`, at any time. -/
  | letGo
  deriving Repr

/-- A policy and `open_start`, the first sample of the audio still held. -/
structure Retention where
  policy : VadPolicy
  openStart : ℕ := 0

namespace Retention

/-- One call; `let_go` erases the audio before the earliest start. -/
def step (r : Retention) : VadCall → Retention
  | .observe probability => { r with policy := (r.policy.observe probability).1 }
  | .reset last => { r with policy := (r.policy.reset last).1 }
  | .letGo =>
    if r.policy.earliestUtteranceStart > r.openStart then
      { r with openStart := r.policy.earliestUtteranceStart }
    else r

/-- The state after a sequence of calls on a new policy. -/
def after (p : VadPolicy) (calls : List VadCall) : Retention := calls.foldl step { policy := p }

/-- The policy is placed and no audio an utterance may need was erased. -/
structure Sound (r : Retention) : Prop where
  placed : r.policy.Placed
  held : r.openStart ≤ r.policy.earliestUtteranceStart

variable {r : Retention} {p : VadPolicy} {profile : VadProfile}

/-- **A call** keeps the state sound and never takes the earliest start
back. -/
theorem Sound.step (h : Sound r) (call : VadCall) :
    Sound (r.step call) ∧
      r.policy.earliestUtteranceStart ≤ (r.step call).policy.earliestUtteranceStart := by
  cases call with
  | observe probability =>
    rcases hobs : r.policy.observe probability with ⟨p', refusal | outcome⟩
    · have hsame : r.step (.observe probability) = r := by
        simp only [Retention.step, hobs, VadPolicy.observe_error hobs]
      rw [hsame]
      exact ⟨h, le_rfl⟩
    · have hforward := h.placed.observe hobs
      have hpolicy : (r.step (.observe probability)).policy = p' := by
        simp only [Retention.step, hobs]
      have hearliest := hforward.earliest
      refine ⟨⟨hpolicy ▸ hforward.placed, ?_⟩, hpolicy ▸ hearliest⟩
      rw [hpolicy]
      exact Nat.le_trans h.held hearliest
  | reset last =>
    have hforward := h.placed.reset last
    exact ⟨⟨hforward.placed, Nat.le_trans h.held hforward.earliest⟩, hforward.earliest⟩
  | letGo =>
    unfold Retention.step
    dsimp only
    split
    · exact ⟨⟨h.placed, le_rfl⟩, le_rfl⟩
    · exact ⟨h, le_rfl⟩

theorem Sound.steps (h : Sound r) (calls : List VadCall) :
    Sound (calls.foldl Retention.step r) ∧ r.policy.earliestUtteranceStart ≤
      (calls.foldl Retention.step r).policy.earliestUtteranceStart := by
  induction calls generalizing r with
  | nil => exact ⟨h, le_rfl⟩
  | cons call calls ih =>
    obtain ⟨hnext, hle⟩ := h.step call
    obtain ⟨hlast, hle'⟩ := ih hnext
    exact ⟨hlast, Nat.le_trans hle hle'⟩

theorem sound_created (h : VadPolicy.create profile = .ok p) : Sound { policy := p } := by
  have hnew : p.nextFrame = 0 ∧ p.floor = 0 ∧ p.utteranceStart = none ∧ p.runFrames = 0 := by
    unfold VadPolicy.create at h
    dsimp only at h
    split_ifs at h
    obtain rfl := Except.ok.inj h
    exact ⟨rfl, rfl, rfl, rfl⟩
  obtain ⟨hnext, hfloor, hnone, hrun⟩ := hnew
  refine ⟨⟨by dsimp only; omega, fun start hs => ?_, fun _ hpos => ?_⟩, Nat.zero_le _⟩
  · exact absurd (hnone.symm.trans hs) (by simp)
  · dsimp only at hpos
    omega

/-- **No later utterance starts before an earlier value of
`earliest_utterance_start`.** Whatever is observed, reset and let go in
between, the value never decreases, and every open utterance, onset and
split is at or after it; so what `let_go` erased is needed by none. -/
theorem earliest_bounds_later (h : VadPolicy.create profile = .ok p)
    (past future : List VadCall) :
    (after p past).policy.earliestUtteranceStart ≤
        (after p (past ++ future)).policy.earliestUtteranceStart ∧
      (∀ start, (after p (past ++ future)).policy.utteranceStart = some start →
        (after p past).policy.earliestUtteranceStart ≤ start ∧
          (after p (past ++ future)).openStart ≤ start) ∧
      ∀ probability outcome,
        ((after p (past ++ future)).policy.observe probability).2 = .ok outcome →
          ∀ start, outcome.onset = some start ∨ outcome.durationSplit = some start →
            (after p past).policy.earliestUtteranceStart ≤ start ∧
              (after p (past ++ future)).openStart ≤ start := by
  have hpast : Sound (after p past) := ((sound_created h).steps past).1
  have hfold : after p (past ++ future) = future.foldl Retention.step (after p past) :=
    List.foldl_append
  obtain ⟨hnow, hle⟩ := hpast.steps future
  rw [← hfold] at hnow hle
  have hheld := hnow.held
  refine ⟨hle, fun start hs => ?_, fun probability outcome hobs start hs => ?_⟩
  · rw [VadPolicy.earliest_open hs] at hle hheld
    exact ⟨hle, hheld⟩
  · have hcall : (after p (past ++ future)).policy.observe probability =
        (((after p (past ++ future)).policy.observe probability).1, .ok outcome) :=
      Prod.ext rfl hobs
    have hforward := hnow.placed.observe hcall
    have hstart : (after p (past ++ future)).policy.earliestUtteranceStart ≤ start := by
      rcases hs with hs | hs
      · exact hforward.onset start hs
      · exact hforward.split start hs
    exact ⟨Nat.le_trans hle hstart, Nat.le_trans hheld hstart⟩

/-- The policy of the default profile. -/
def defaultPolicy : VadPolicy where
  profile := {}
  minSpeechFrames := 2
  silenceFrames := 10
  leadingPadding := 2560
  maxUtterance := 480000

theorem create_default : VadPolicy.create {} = .ok defaultPolicy := by
  have hthreshold : ¬((1 / 2 : ℚ) ≤ 0 ∨ (1 / 2 : ℚ) > 1) := by decide +kernel
  unfold VadPolicy.create
  rw [if_neg hthreshold]
  rfl

/-- Speech from the first frame on: the audio before it is never erased. -/
theorem earliest_bounds_later_default :
    VadPolicy.create {} = .ok defaultPolicy ∧
      (after defaultPolicy [.observe (some 0), .letGo]).policy.earliestUtteranceStart ≤
        (after defaultPolicy ([.observe (some 0), .letGo] ++
          [.observe (some 1), .letGo, .reset 4096])).policy.earliestUtteranceStart :=
  ⟨create_default, (earliest_bounds_later create_default [.observe (some 0), .letGo]
    [.observe (some 1), .letGo, .reset 4096]).1⟩

end Retention

end Serving

end Tensorplate
