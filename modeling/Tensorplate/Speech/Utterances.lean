import Mathlib.Data.List.Induction
import Mathlib.Tactic.NormNum
import Tensorplate.Speech.VadPolicy

/-!
# The utterances voice detection names

Over a run of frames and resets the outcomes name utterances: each opens
at an onset or a split and ends at the next split, silence endpoint or
reset. A policy that `create` made relates padding, minimum speech, frame
and maximum so that a frame never carries an utterance twice past the
maximum; from that come the order and the lengths of the utterances, and
that no subtraction underflows.
-/

namespace Tensorplate

namespace Serving

open Lib

/-- An utterance that ended: its samples, whether a reset ended it, and
where the observed frames ended then. -/
structure Utterance where
  start : ℕ
  stop : ℕ
  byReset : Bool
  observed : ℕ
  deriving DecidableEq

namespace VadPolicy

/-! ## A run -/

/-- One call on the policy. -/
inductive Call
  | observe (probability : Option ℚ)
  | reset (last : ℕ)

/-- A policy and the utterances its outcomes have named: those that
ended, and the one that is open. -/
structure Watched where
  policy : VadPolicy
  ended : List Utterance := []
  openAt : Option ℕ := none

namespace Watched

/-- The open utterance ends at `stop`. -/
def endAt (w : Watched) (stop : ℕ) (byReset : Bool) (observed : ℕ) : Watched :=
  match w.openAt with
  | none => w
  | some start => { w with ended := w.ended ++ [⟨start, stop, byReset, observed⟩], openAt := none }

/-- An utterance opens at `start`. -/
def opens (w : Watched) (start : ℕ) : Watched := { w with openAt := some start }

/-- The utterances an outcome names, in sample order: a split first, then
an onset or a silence endpoint. -/
def name (w : Watched) (outcome : VadFrameOutcome) : Watched :=
  let observed := w.policy.nextFrame
  let w := match outcome.durationSplit with
    | none => w
    | some split => (w.endAt split false observed).opens split
  let w := match outcome.onset with
    | none => w
    | some start => w.opens start
  match outcome.silenceEndpoint with
  | none => w
  | some last => w.endAt last false observed

/-- One more call. A refused one names nothing. -/
def call (w : Watched) : Call → Watched
  | .observe probability =>
    match w.policy.observe probability with
    | (p, .ok outcome) => { w with policy := p }.name outcome
    | (p, .error _) => { w with policy := p }
  | .reset last =>
    match w.policy.reset last with
    | (p, .ok ()) => { w.endAt last true w.policy.nextFrame with policy := p }
    | (p, .error _) => { w with policy := p }

end Watched

/-- **A new policy under a sequence of calls.** -/
def watched (p : VadPolicy) (calls : List Call) : Watched := calls.foldl Watched.call ⟨p, [], none⟩

/-! ## The invariant -/

/-- What `create` relates. -/
structure Shaped (p : VadPolicy) : Prop where
  frame_pos : 0 < p.profile.frameSamples
  minSpeech_pos : 0 < p.minSpeechFrames
  fits : p.leadingPadding + p.minSpeechFrames * p.profile.frameSamples < p.maxUtterance

/-- **A policy between two calls**: in silence, the speech run under way
ends at the next frame and began at the floor or later; in speech, the
utterance is shorter than the longest. -/
structure Sound (p : VadPolicy) : Prop extends Shaped p where
  silent : p.utteranceStart = none → p.floor ≤ p.nextFrame ∧ p.runFrames < p.minSpeechFrames ∧
    (0 < p.runFrames → p.floor ≤ p.runStart ∧
      p.runStart + p.runFrames * p.profile.frameSamples = p.nextFrame)
  speaking : ∀ start, p.utteranceStart = some start →
    start ≤ p.nextFrame ∧ p.nextFrame - start < p.maxUtterance ∧
      p.runFrames * p.profile.frameSamples ≤ p.nextFrame

theorem wholeFrames_pos {duration frameSamples : ℕ} (hd : 0 < duration) (hf : 0 < frameSamples) :
    0 < wholeFrames duration frameSamples := by
  have hms : 0 < samplesOf duration := Nat.mul_pos hd (by decide)
  exact Nat.div_pos (by omega) hf

/-- **What `create` accepts.** -/
theorem create_sound {profile : VadProfile} {p : VadPolicy} (h : create profile = .ok p) :
    p.Sound ∧ p.utteranceStart = none ∧ p.nextFrame = 0 := by
  unfold create at h
  split at h
  · simp at h
  split at h
  · simp at h
  next hframe =>
  split at h
  · simp at h
  split at h
  · simp at h
  split at h
  · simp at h
  next hdurations =>
  dsimp only at h
  split at h
  · simp at h
  next hfits =>
  obtain rfl := Except.ok.inj h
  simp only [List.any_cons, List.any_nil, Bool.or_false, Bool.or_eq_true, beq_iff_eq,
    decide_eq_true_eq, not_or] at hdurations
  refine ⟨⟨⟨?_, ?_, ?_⟩, ?_, ?_⟩, rfl, rfl⟩
  · exact Nat.pos_of_ne_zero fun h => hframe (.inl h)
  · exact wholeFrames_pos (Nat.pos_of_ne_zero hdurations.1.1)
      (Nat.pos_of_ne_zero fun h => hframe (.inl h))
  · exact Nat.lt_of_not_le hfits
  · intro _
    refine ⟨Nat.le_refl _, ?_, by simp⟩
    exact wholeFrames_pos (Nat.pos_of_ne_zero hdurations.1.1)
      (Nat.pos_of_ne_zero fun h => hframe (.inl h))
  · simp

/-! ## One frame -/

/-- **What one frame may name.** -/
inductive Frame (p p' : VadPolicy) : VadFrameOutcome → Prop
  | silence : p.utteranceStart = none → p'.utteranceStart = none → p'.floor = p.floor →
      Frame p p' {}
  | onset {start : ℕ} : p.utteranceStart = none → p'.utteranceStart = some start →
      p.floor ≤ start → Frame p p' { onset := some start }
  | speech {start : ℕ} : p.utteranceStart = some start → p'.utteranceStart = some start →
      Frame p p' {}
  | split {start : ℕ} : p.utteranceStart = some start →
      p'.utteranceStart = some (start + p.maxUtterance) →
      Frame p p' { durationSplit := some (start + p.maxUtterance) }
  | endpoint {start : ℕ} : p.utteranceStart = some start → p'.utteranceStart = none →
      p'.floor = p'.nextFrame → start ≤ p'.nextFrame → p'.nextFrame - start ≤ p.maxUtterance →
      Frame p p' { silenceEndpoint := some p'.nextFrame }
  | splitEndpoint {start : ℕ} : p.utteranceStart = some start → p'.utteranceStart = none →
      p'.floor = p'.nextFrame → start + p.maxUtterance ≤ p'.nextFrame →
      p'.nextFrame - (start + p.maxUtterance) < p.maxUtterance →
      Frame p p' { durationSplit := some (start + p.maxUtterance)
                   silenceEndpoint := some p'.nextFrame }

/-- A frame is shorter than the longest utterance. -/
theorem Shaped.frame_lt {p : VadPolicy} (hp : p.Shaped) :
    p.profile.frameSamples < p.maxUtterance := by
  have hfits := hp.fits
  have hone : 1 * p.profile.frameSamples ≤ p.minSpeechFrames * p.profile.frameSamples :=
    Nat.mul_le_mul_right _ hp.minSpeech_pos
  omega

/-- The start of an onset: no earlier than the floor or the padding before
the run, no later than the run. -/
theorem padded_bounds (p : VadPolicy) {runStart : ℕ} (h : p.floor ≤ runStart) :
    p.floor ≤ p.padded runStart ∧ p.padded runStart ≤ runStart ∧
      runStart ≤ p.padded runStart + p.leadingPadding := by
  unfold padded
  split <;> omega

/-- **A frame in silence.** -/
theorem Sound.inSilence {p p' : VadPolicy} {outcome : VadFrameOutcome} {speech : Bool}
    (hp : p.Sound) (hsilent : p.utteranceStart = none)
    (h : p.advanced.inSilence speech p.nextFrame = (p', outcome)) :
    p'.Sound ∧ Frame p p' outcome := by
  obtain ⟨hfloor, hrun, hunder⟩ := hp.silent hsilent
  have hframe := hp.frame_pos
  have hfits := hp.fits
  unfold VadPolicy.inSilence at h
  split at h
  · -- Not speech: the run under way is dropped.
    obtain ⟨rfl, rfl⟩ := Prod.mk.inj h
    refine ⟨⟨⟨hp.frame_pos, hp.minSpeech_pos, hp.fits⟩, ?_, ?_⟩, .silence hsilent hsilent rfl⟩
    · intro _
      refine ⟨?_, hp.minSpeech_pos, nofun⟩
      simp only [advanced]
      omega
    · simp [advanced, hsilent]
  dsimp only at h
  -- The run this frame is part of.
  have hstart : p.floor ≤ (if p.runFrames = 0 then p.nextFrame else p.runStart) ∧
      (if p.runFrames = 0 then p.nextFrame else p.runStart) +
        (p.runFrames + 1) * p.profile.frameSamples = p.nextFrame + p.profile.frameSamples := by
    rw [Nat.add_mul, Nat.one_mul]
    split
    · next hzero =>
      rw [hzero, Nat.zero_mul]
      omega
    · obtain ⟨hle, heq⟩ := hunder (by omega)
      exact ⟨hle, by omega⟩
  generalize hrs : (if p.advanced.runFrames = 0 then p.nextFrame else p.advanced.runStart) =
    runStart at h
  have hrs' : (if p.runFrames = 0 then p.nextFrame else p.runStart) = runStart := hrs
  rw [hrs'] at hstart
  split at h
  · next hshort =>
    obtain ⟨rfl, rfl⟩ := Prod.mk.inj h
    refine ⟨⟨⟨hp.frame_pos, hp.minSpeech_pos, hp.fits⟩, ?_, ?_⟩, .silence hsilent hsilent rfl⟩
    · intro _
      refine ⟨?_, hshort, fun _ => hstart⟩
      simp only [advanced]
      omega
    · simp [advanced, hsilent]
  · next hlong =>
    obtain ⟨rfl, rfl⟩ := Prod.mk.inj h
    obtain ⟨hge, hle, hpad⟩ := padded_bounds p.advanced hstart.1
    have hframes : p.runFrames + 1 = p.minSpeechFrames := by
      have : ¬ p.runFrames + 1 < p.minSpeechFrames := hlong
      omega
    rw [hframes] at hstart
    refine ⟨⟨⟨hp.frame_pos, hp.minSpeech_pos, hp.fits⟩, ?_, ?_⟩, .onset hsilent rfl hge⟩
    · simp
    · intro start hs
      obtain rfl : p.advanced.padded runStart = start := by simpa using hs
      have hlead : p.advanced.leadingPadding = p.leadingPadding := rfl
      rw [hlead] at hpad
      simp only [advanced] at hle hpad ⊢
      refine ⟨by omega, by omega, by omega⟩

/-- **A frame in speech.** -/
theorem Sound.inSpeech {p p' : VadPolicy} {outcome : VadFrameOutcome} {speech : Bool} {start : ℕ}
    (hp : p.Sound) (hstart : p.utteranceStart = some start)
    (h : p.advanced.inSpeech speech start = (p', outcome)) :
    p'.Sound ∧ Frame p p' outcome := by
  classical
  obtain ⟨hle, hlt, hrun⟩ := hp.speaking start hstart
  have hframe := hp.frame_pos
  have hfits := hp.fits
  have hshort := hp.frame_lt
  have hnext : p.advanced.nextFrame = p.nextFrame + p.profile.frameSamples := rfl
  have hmax : p.advanced.maxUtterance = p.maxUtterance := rfl
  have hutt : p.advanced.utteranceStart = some start := hstart
  have hsilent : p.advanced.silentFrames speech * p.profile.frameSamples ≤
      p.nextFrame + p.profile.frameSamples := by
    unfold silentFrames
    split
    · omega
    · have hadv : p.advanced.runFrames = p.runFrames := rfl
      rw [hadv, Nat.add_mul, Nat.one_mul]
      omega
  rw [inSpeech_eq] at h
  by_cases hs : p.advanced.Silences speech <;> by_cases hd : p.advanced.Splits speech start <;>
    simp only [hs, hd, if_true, if_false] at h <;> obtain ⟨rfl, rfl⟩ := Prod.mk.inj h
  · -- Past the longest, and silence ended the rest.
    have hover : p.advanced.maxUtterance < p.advanced.nextFrame - start := by
      rcases hd with hd | ⟨-, hd⟩
      · exact hd
      · exact absurd hs hd
    rw [hmax, hnext] at hover
    refine ⟨⟨⟨hp.frame_pos, hp.minSpeech_pos, hp.fits⟩, ?_, by simp⟩,
      .splitEndpoint hstart rfl rfl ?_ ?_⟩
    · exact fun _ => ⟨Nat.le_refl _, hp.minSpeech_pos, nofun⟩
    · dsimp only
      rw [hnext]
      omega
    · dsimp only
      rw [hnext]
      omega
  · have hunder : p.nextFrame + p.profile.frameSamples - start ≤ p.maxUtterance := by
      by_contra hcon
      exact hd (.inl (Nat.lt_of_not_le hcon))
    refine ⟨⟨⟨hp.frame_pos, hp.minSpeech_pos, hp.fits⟩, ?_, by simp⟩,
      .endpoint hstart rfl rfl ?_ hunder⟩
    · exact fun _ => ⟨Nat.le_refl _, hp.minSpeech_pos, nofun⟩
    · dsimp only
      rw [hnext]
      omega
  · -- The rest of the frame opens the next utterance.
    have hover : p.maxUtterance ≤ p.nextFrame + p.profile.frameSamples - start := by
      rcases hd with hd | ⟨hd, -⟩
      · exact Nat.le_of_lt hd
      · exact Nat.le_of_eq hd.symm
    refine ⟨⟨⟨hp.frame_pos, hp.minSpeech_pos, hp.fits⟩, by simp, ?_⟩, .split hstart rfl⟩
    intro start' hs'
    obtain rfl : start + p.maxUtterance = start' := by simpa [hmax] using hs'
    dsimp only
    rw [hnext]
    exact ⟨by omega, by simp only [advanced]; omega, hsilent⟩
  · have hunder : p.nextFrame + p.profile.frameSamples - start < p.maxUtterance := by
      by_contra hcon
      rcases Nat.lt_or_eq_of_le (Nat.le_of_not_lt hcon) with hc | hc
      · exact hd (.inl hc)
      · exact hd (.inr ⟨hc.symm, hs⟩)
    refine ⟨⟨⟨hp.frame_pos, hp.minSpeech_pos, hp.fits⟩, by simp [hutt], ?_⟩, .speech hstart hutt⟩
    intro start' hs'
    obtain rfl : start = start' := by simpa [hutt] using hs'
    dsimp only
    rw [hnext]
    exact ⟨by omega, hunder, hsilent⟩

/-- **One observed frame.** -/
theorem Sound.observe {p p' : VadPolicy} {outcome : VadFrameOutcome} {probability : Option ℚ}
    (hp : p.Sound) (h : p.observe probability = (p', .ok outcome)) :
    p'.Sound ∧ Frame p p' outcome := by
  obtain ⟨speech, ⟨hsilent, hobs⟩ | ⟨start, hstart, hobs⟩⟩ := observe_ok h
  · exact hp.inSilence hsilent hobs
  · exact hp.inSpeech hstart hobs

theorem observe_maxUtterance {p p' : VadPolicy} {outcome : VadFrameOutcome}
    {probability : Option ℚ} (h : p.observe probability = (p', .ok outcome)) :
    p'.maxUtterance = p.maxUtterance := by
  obtain ⟨speech, ⟨-, hobs⟩ | ⟨start, -, hobs⟩⟩ := observe_ok h
  · have hfield := congrArg (fun r => r.1.maxUtterance) hobs
    unfold inSilence at hfield
    split at hfield
    · exact hfield.symm
    · dsimp only at hfield
      split at hfield <;> exact hfield.symm
  · rw [inSpeech_eq] at hobs
    exact (congrArg (fun r => r.1.maxUtterance) hobs).symm

/-- **A reset**: back to silence, with the floor at its end. -/
theorem reset_cases (p : VadPolicy) (last : ℕ) :
    (∃ error, p.reset last = (p, .error error)) ∨
      (p.nextFrame ≤ last ∧ p.reset last =
        ({ p with nextFrame := last, floor := last, utteranceStart := none, runFrames := 0 },
          .ok ())) := by
  unfold reset
  split
  · exact .inl ⟨_, rfl⟩
  · exact .inr ⟨by omega, rfl⟩

/-! ## The utterances of a run -/

/-- What an utterance's length may be: at most the longest, but for one a
reset ended, which exceeds it by less than the audio past the frames
observed. -/
def Utterance.Bounded (longest : ℕ) (u : Utterance) : Prop :=
  u.start ≤ u.stop ∧ (u.byReset = false → u.stop - u.start ≤ longest) ∧
    (u.byReset = true → u.stop - u.start < longest + (u.stop - u.observed))

/-- **Utterances in order**, all ended by `bound`. -/
structure InOrder (longest : ℕ) (ended : List Utterance) (bound : ℕ) : Prop where
  sorted : ended.Pairwise fun u v => u.stop ≤ v.start
  bounded : ∀ u ∈ ended, Utterance.Bounded longest u
  before : ∀ u ∈ ended, u.stop ≤ bound

theorem InOrder.mono {longest bound bound' : ℕ} {ended : List Utterance}
    (h : InOrder longest ended bound) (hb : bound ≤ bound') : InOrder longest ended bound' :=
  ⟨h.sorted, h.bounded, fun u hu => (h.before u hu).trans hb⟩

/-- One more utterance, from where the others have ended. -/
theorem InOrder.add {longest : ℕ} {ended : List Utterance} {u : Utterance}
    (h : InOrder longest ended u.start) (hu : Utterance.Bounded longest u) :
    InOrder longest (ended ++ [u]) u.stop := by
  refine ⟨?_, ?_, ?_⟩
  · refine List.pairwise_append.2 ⟨h.sorted, by simp, ?_⟩
    intro v hv u' hu'
    rw [List.mem_singleton.1 hu']
    exact h.before v hv
  · intro v hv
    rcases List.mem_append.1 hv with hv | hv
    · exact h.bounded v hv
    · rw [List.mem_singleton.1 hv]
      exact hu
  · intro v hv
    rcases List.mem_append.1 hv with hv | hv
    · exact (h.before v hv).trans hu.1
    · rw [List.mem_singleton.1 hv]

/-- **The utterances and the policy agree** on what is open and on the
earliest sample the next utterance may start at. -/
structure Watched.Agrees (longest : ℕ) (w : Watched) : Prop where
  policy : w.policy.Sound
  limit : w.policy.maxUtterance = longest
  opened : w.openAt = w.policy.utteranceStart
  inOrder : InOrder longest w.ended (w.policy.utteranceStart.getD w.policy.floor)

theorem Watched.Agrees.observe {longest : ℕ} {w : Watched} (hw : w.Agrees longest)
    {p' : VadPolicy} {outcome : VadFrameOutcome} {probability : Option ℚ}
    (h : w.policy.observe probability = (p', .ok outcome)) :
    Watched.Agrees longest ({ w with policy := p' }.name outcome) := by
  obtain ⟨hp', hframe⟩ := hw.policy.observe h
  have hmax := (observe_maxUtterance h).trans hw.limit
  have hlongest := hw.limit
  have hin := hw.inOrder
  have hopened := hw.opened
  cases hframe with
  | silence hs hs' hfloor =>
    refine ⟨hp', hmax, hopened.trans (hs.trans hs'.symm), ?_⟩
    rw [hs, Option.getD_none] at hin
    simp only [Watched.name, hs', Option.getD_none, hfloor]
    exact hin
  | onset hs hs' hge =>
    refine ⟨hp', hmax, hs'.symm, ?_⟩
    rw [hs, Option.getD_none] at hin
    simp only [Watched.name, Watched.opens, hs', Option.getD_some]
    exact hin.mono hge
  | speech hs hs' =>
    refine ⟨hp', hmax, hopened.trans (hs.trans hs'.symm), ?_⟩
    rw [hs, Option.getD_some] at hin
    simp only [Watched.name, hs', Option.getD_some]
    exact hin
  | @split start hs hs' =>
    rw [hs] at hopened hin
    have hname : Watched.name { w with policy := p' }
        { durationSplit := some (start + w.policy.maxUtterance) } =
        ⟨p', w.ended ++ [⟨start, start + w.policy.maxUtterance, false, p'.nextFrame⟩],
          some (start + w.policy.maxUtterance)⟩ := by
      simp [Watched.name, Watched.endAt, Watched.opens, hopened]
    rw [hname]
    refine ⟨hp', hmax, hs'.symm, ?_⟩
    simp only [hs', Option.getD_some]
    refine InOrder.add (u := ⟨start, start + w.policy.maxUtterance, false, p'.nextFrame⟩) hin
      ⟨Nat.le_add_right _ _, fun _ => ?_, by simp⟩
    dsimp only
    omega
  | @endpoint start hs hs' hfloor hle hlen =>
    rw [hs] at hopened hin
    have hname : Watched.name { w with policy := p' } { silenceEndpoint := some p'.nextFrame } =
        ⟨p', w.ended ++ [⟨start, p'.nextFrame, false, p'.nextFrame⟩], none⟩ := by
      simp [Watched.name, Watched.endAt, hopened]
    rw [hname]
    refine ⟨hp', hmax, hs'.symm, ?_⟩
    simp only [hs', Option.getD_none, hfloor]
    refine InOrder.add (u := ⟨start, p'.nextFrame, false, p'.nextFrame⟩) hin
      ⟨hle, fun _ => ?_, by simp⟩
    dsimp only
    omega
  | @splitEndpoint start hs hs' hfloor hle hlen =>
    rw [hs] at hopened hin
    have hname : Watched.name { w with policy := p' }
        { durationSplit := some (start + w.policy.maxUtterance)
          silenceEndpoint := some p'.nextFrame } =
        ⟨p', (w.ended ++ [⟨start, start + w.policy.maxUtterance, false, p'.nextFrame⟩]) ++
          [⟨start + w.policy.maxUtterance, p'.nextFrame, false, p'.nextFrame⟩], none⟩ := by
      simp [Watched.name, Watched.endAt, Watched.opens, hopened]
    rw [hname]
    refine ⟨hp', hmax, hs'.symm, ?_⟩
    simp only [hs', Option.getD_none, hfloor]
    have hfirst := InOrder.add
      (u := ⟨start, start + w.policy.maxUtterance, false, p'.nextFrame⟩) hin
      ⟨Nat.le_add_right _ _, fun _ => by dsimp only; omega, by simp⟩
    refine InOrder.add
      (u := ⟨start + w.policy.maxUtterance, p'.nextFrame, false, p'.nextFrame⟩) hfirst
      ⟨hle, fun _ => ?_, by simp⟩
    dsimp only
    omega

theorem Watched.Agrees.reset {longest : ℕ} {w : Watched} (hw : w.Agrees longest) {last : ℕ}
    (hlast : w.policy.nextFrame ≤ last) :
    Watched.Agrees longest { w.endAt last true w.policy.nextFrame with
      policy := { w.policy with
        nextFrame := last, floor := last, utteranceStart := none, runFrames := 0 } } := by
  have hp := hw.policy
  have hlongest := hw.limit
  have hin := hw.inOrder
  have hopened := hw.opened
  have hsound : VadPolicy.Sound { w.policy with
      nextFrame := last, floor := last, utteranceStart := none, runFrames := 0 } :=
    ⟨⟨hp.frame_pos, hp.minSpeech_pos, hp.fits⟩,
      fun _ => ⟨Nat.le_refl _, hp.minSpeech_pos, nofun⟩, by simp⟩
  cases hstart : w.policy.utteranceStart with
  | none =>
    rw [hstart] at hopened hin
    have hend : w.endAt last true w.policy.nextFrame = w := by simp [Watched.endAt, hopened]
    rw [hend]
    refine ⟨hsound, hlongest, hopened, ?_⟩
    exact hin.mono ((hp.silent hstart).1.trans hlast)
  | some start =>
    rw [hstart] at hopened hin
    obtain ⟨hle, hlt, -⟩ := hp.speaking start hstart
    have hend : w.endAt last true w.policy.nextFrame = { w with
        ended := w.ended ++ [⟨start, last, true, w.policy.nextFrame⟩], openAt := none } := by
      simp [Watched.endAt, hopened]
    rw [hend]
    refine ⟨hsound, hlongest, rfl, ?_⟩
    refine InOrder.add (u := ⟨start, last, true, w.policy.nextFrame⟩) hin
      ⟨hle.trans hlast, by simp, fun _ => ?_⟩
    dsimp only
    omega

/-- **Every call keeps the agreement.** -/
theorem Watched.Agrees.call {longest : ℕ} {w : Watched} (hw : w.Agrees longest) (c : Call) :
    (w.call c).Agrees longest := by
  unfold Watched.call
  cases c with
  | observe probability =>
    dsimp only
    split
    · next p outcome h => exact hw.observe h
    · next p error h =>
      rw [observe_error h]
      exact hw
  | reset last =>
    dsimp only
    rcases reset_cases w.policy last with ⟨error, h⟩ | ⟨hle, h⟩
    · rw [h]
      exact hw
    · rw [h]
      exact hw.reset hle

theorem agrees_watched {profile : VadProfile} {p : VadPolicy} (h : create profile = .ok p)
    (calls : List Call) : (watched p calls).Agrees p.maxUtterance := by
  obtain ⟨hp, hsilent, -⟩ := create_sound h
  unfold watched
  induction calls using List.reverseRecOn with
  | nil => exact ⟨hp, rfl, hsilent.symm, ⟨by simp, by simp, by simp⟩⟩
  | append_singleton calls c ih =>
    rw [List.foldl_append]
    exact ih.call c

/-- **The utterances of every run.** For every profile `create` accepts
and every sequence of calls: the utterances the outcomes name are in
order, each starting where the one before has ended or later, and none is
longer than the longest, but for one a reset ends, which exceeds it by
less than the audio past the frames observed. A frame never carries an
onset beside a split or an endpoint, and what it leaves behind its split
is too short to split again. In speech the utterance is shorter than the
longest. And no subtraction of the policy underflows: the run of speech
an onset would name begins at the floor or later, padding is subtracted
only from a longer run, and in speech neither the utterance's start nor
the silent run is past the observed frames. -/
theorem utterances_in_order {profile : VadProfile} {p : VadPolicy} (h : create profile = .ok p)
    (calls : List Call) :
    let w := watched p calls
    let q := w.policy
    (w.ended.Pairwise fun u v => u.stop ≤ v.start) ∧
    (∀ u ∈ w.ended, u.start ≤ u.stop ∧ (u.byReset = false → u.stop - u.start ≤ p.maxUtterance) ∧
      (u.byReset = true → u.stop - u.start < p.maxUtterance + (u.stop - u.observed))) ∧
    (∀ start, w.openAt = some start → ∀ u ∈ w.ended, u.stop ≤ start) ∧
    (∀ probability q' outcome, q.observe probability = (q', .ok outcome) →
      (outcome.onset.isSome = true →
        outcome.durationSplit = none ∧ outcome.silenceEndpoint = none) ∧
      ∀ split, outcome.durationSplit = some split →
        split ≤ q'.nextFrame ∧ q'.nextFrame - split < p.maxUtterance) ∧
    (∀ start, q.utteranceStart = some start → q.nextFrame - start < p.maxUtterance) ∧
    ((q.utteranceStart = none →
        q.floor ≤ (if q.runFrames > 0 then q.runStart else q.nextFrame)) ∧
      (∀ runStart, runStart - q.floor > q.leadingPadding → q.leadingPadding ≤ runStart) ∧
      (∀ start, q.utteranceStart = some start →
        start ≤ q.nextFrame ∧ q.runFrames * q.profile.frameSamples ≤ q.nextFrame)) := by
  intro w q
  have hw : w.Agrees p.maxUtterance := agrees_watched h calls
  have hlongest : q.maxUtterance = p.maxUtterance := hw.limit
  refine ⟨hw.inOrder.sorted, hw.inOrder.bounded, ?_, ?_, ?_, ?_, ?_, ?_⟩
  · intro start hopen u hu
    have hbefore := hw.inOrder.before u hu
    rw [← hw.opened, hopen, Option.getD_some] at hbefore
    exact hbefore
  · intro probability q' outcome hobs
    obtain ⟨hsound, hframe⟩ := hw.policy.observe hobs
    have hmax : q'.maxUtterance = p.maxUtterance := (observe_maxUtterance hobs).trans hlongest
    cases hframe with
    | silence _ _ _ => simp
    | onset _ _ _ => simp
    | speech _ _ => simp
    | endpoint _ _ _ _ _ => simp
    | @split start hs hs' =>
      obtain ⟨hle, hlt, -⟩ := hsound.speaking _ hs'
      rw [hmax] at hlt
      refine ⟨by simp, fun split hsplit => ?_⟩
      obtain rfl : start + q.maxUtterance = split := by simpa using hsplit
      exact ⟨hle, hlt⟩
    | @splitEndpoint start _ _ _ hle hlt =>
      refine ⟨by simp, fun split hsplit => ?_⟩
      obtain rfl : start + q.maxUtterance = split := by simpa using hsplit
      exact ⟨hle, Nat.lt_of_lt_of_eq hlt hlongest⟩
  · intro start hstart
    rw [← hlongest]
    exact (hw.policy.speaking start hstart).2.1
  · intro hsilent
    obtain ⟨hfloor, -, hrun⟩ := hw.policy.silent hsilent
    split
    · next hpos => exact (hrun hpos).1
    · exact hfloor
  · intro runStart hlong
    omega
  · intro start hstart
    obtain ⟨hle, -, hrun⟩ := hw.policy.speaking start hstart
    exact ⟨hle, hrun⟩

/-- The default profile, over one frame of speech and a reset. -/
theorem utterances_in_order_default :
    ∃ p, create {} = .ok p ∧
      (watched p [.observe (some 1), .reset 600]).ended.Pairwise fun u v => u.stop ≤ v.start := by
  have hcreate : create {} = .ok {
      profile := {}
      minSpeechFrames := 2
      silenceFrames := 10
      leadingPadding := 2560
      maxUtterance := 480000 } := by
    norm_num [create, wholeFrames, samplesOf, kSamplesPerMs, kMaxFrameSamples, kMaxUtterance,
      kJobInputSampleRateHz, kMaxVadFramesBytes, kMaxAudioFramesBytes]
  exact ⟨_, hcreate, (utterances_in_order hcreate _).1⟩

end VadPolicy

end Serving

end Tensorplate
