import Mathlib.Data.List.TakeWhile
import Tensorplate.Lib.Runs
import Tensorplate.Speech.TranscriptCommitment

/-!
# Where the ring starts

`advance_ring` takes the committed words that end early enough, in the
order in which they were committed, and starts the ring at the end of the
last one it took. A decode's words are in the order of their starts, not of
their ends, so that end need be neither the latest of those taken nor at or
past the old ring start. Where words commit in the order of their ends both
hold, in every run.
-/

namespace Tensorplate

namespace Serving

open Lib

namespace TranscriptCommitment

variable {c c' : TranscriptCommitment} {d : Decode} {words : List AlignedWord}

/-- The order of the words' ends. -/
def EndsInOrder (words : List AlignedWord) : Prop :=
  words.Pairwise fun a b => a.endSample ≤ b.endSample

/-- **A decode commits in order**: no word that it commits ends before the
word committed just before it. -/
def CommitsInOrder (c : TranscriptCommitment) (d : Decode) : Prop :=
  ∀ words, c.reconciledWords d = some words →
    EndsInOrder (c.committed.getLast?.toList ++ words.take (c.stableFrom 0 words))

/-- One call of `observe`. -/
def observed (c : TranscriptCommitment) (d : Decode) : Option TranscriptCommitment :=
  some (c.observe d.windowStart d.windowEnd d.result).1

/-- **What a call keeps of the ring.** -/
structure RingKept (c c' : TranscriptCommitment) : Prop where
  forward : c.ringStart ≤ c'.ringStart
  before : ∀ word ∈ c'.committed.take c'.ringIndex, word.endSample ≤ c'.ringStart
  follows : 0 < c'.ringIndex → c'.ringIndex < c'.committed.length
  overlap : c'.ringIndex ≠ c.ringIndex ∨ c'.ringStart ≠ c.ringStart →
    ∀ back, c'.committed.getLast? = some back →
      c'.ringStart + kRetainedOverlap ≤ back.endSample

/-! ## One advance -/

/-- **Where the ring advances to**: the end of a committed word behind the
old ring index, which ends the overlap before the last one. -/
theorem advanceRing_cases (c : TranscriptCommitment) :
    c.advanceRing = c ∨ ∃ back index word, c.committed.getLast? = some back ∧
      ¬back.endSample < add64 c.ringStart kRetainedOverlap ∧ c.ringIndex < index ∧
      c.committed[index - 1]? = some word ∧
      word.endSample ≤ sub64 back.endSample kRetainedOverlap ∧
      c.advanceRing = { c with ringIndex := index, ringStart := word.endSample } := by
  unfold advanceRing
  rcases hlast : c.committed.getLast? with _ | back
  · exact .inl rfl
  dsimp only
  by_cases hnear : back.endSample < add64 c.ringStart kRetainedOverlap
  · rw [if_pos hnear]
    exact .inl rfl
  rw [if_neg hnear]
  generalize hlatest : sub64 back.endSample kRetainedOverlap = latest
  by_cases hindex : c.ringIndex + endedBy latest c.anchors > c.ringIndex
  swap
  · rw [if_neg hindex]
    exact .inl rfl
  rw [if_pos hindex]
  rcases hword : c.committed[c.ringIndex + endedBy latest c.anchors - 1]? with _ | word
  · exact .inl rfl
  refine .inr ⟨back, _, word, rfl, hnear, hindex, hword, ?_, rfl⟩
  have hsplit := List.takeWhile_append_dropWhile (p := fun word : AlignedWord =>
    decide (word.endSample ≤ latest)) (l := c.anchors)
  have hcount : (c.anchors.takeWhile fun word => decide (word.endSample ≤ latest)).length =
      endedBy latest c.anchors := rfl
  generalize endedBy latest c.anchors = count at hindex hword hcount
  have hat : c.anchors[count - 1]? = some word := by
    have hplace : c.ringIndex + (count - 1) = c.ringIndex + count - 1 := by omega
    rw [anchors, List.getElem?_drop, hplace, hword]
  rw [← hsplit, List.getElem?_append_left (by omega)] at hat
  have hmem := List.mem_takeWhile_imp (List.mem_of_getElem? hat)
  rw [hlatest]
  simpa using hmem

/-! ## Ends in order -/

/-- In order, no word before a place ends after the word there, and none
behind it before that word. -/
theorem EndsInOrder.around {n : ℕ} {word : AlignedWord} (h : EndsInOrder words)
    (hn : words[n]? = some word) :
    (∀ x ∈ words.take (n + 1), x.endSample ≤ word.endSample) ∧
      ∀ x ∈ words.drop (n + 1), word.endSample ≤ x.endSample := by
  have htake : words.take (n + 1) = words.take n ++ [word] := by
    rw [List.take_add_one, hn]
    rfl
  have hsplit : words = words.take n ++ [word] ++ words.drop (n + 1) := by
    rw [← htake, List.take_append_drop]
  rw [EndsInOrder, hsplit] at h
  obtain ⟨hfront, -, hcross⟩ := List.pairwise_append.1 h
  obtain ⟨-, -, hlast⟩ := List.pairwise_append.1 hfront
  rw [htake]
  refine ⟨fun x hx => ?_, fun x hx => ?_⟩
  · rcases List.mem_append.1 hx with hx | hx
    · exact hlast x hx word List.mem_cons_self
    · rw [List.mem_singleton.1 hx]
  · exact hcross word (List.mem_append_right _ List.mem_cons_self) x hx

/-- Words after the last one, in order with it, keep the order. -/
theorem EndsInOrder.append {new : List AlignedWord} (h : EndsInOrder words)
    (hnew : EndsInOrder (words.getLast?.toList ++ new)) : EndsInOrder (words ++ new) := by
  rcases List.eq_nil_or_concat words with rfl | ⟨front, back, rfl⟩
  · exact hnew
  rw [List.concat_eq_append] at *
  rw [List.getLast?_concat] at hnew
  obtain ⟨-, hafter, hcross⟩ := List.pairwise_append.1 hnew
  refine List.pairwise_append.2 ⟨h, hafter, fun x hx y hy => ?_⟩
  have hback : back.endSample ≤ y.endSample := hcross back (by simp) y hy
  rcases List.mem_append.1 hx with hx | hx
  · have hle := (List.pairwise_append.1 h).2.2 x hx back List.mem_cons_self
    exact Nat.le_trans hle hback
  · rw [List.mem_singleton.1 hx]
    exact hback

/-! ## Every run -/

/-- **The ring among the committed words**: those before its index end by
its start and those behind it do not end before. -/
structure Ring (c : TranscriptCommitment) : Prop where
  fits : c.RingFits
  range : ∀ x ∈ c.committed, x.endSample < word64
  ordered : EndsInOrder c.committed
  before : ∀ x ∈ c.committed.take c.ringIndex, x.endSample ≤ c.ringStart
  behind : ∀ x ∈ c.committed.drop c.ringIndex, c.ringStart ≤ x.endSample

theorem RingFits.index_le (h : c.RingFits) : c.ringIndex ≤ c.committed.length := by
  rcases h with ⟨-, hzero⟩ | hlt
  · omega
  · omega

/-- **An advance among words in order** moves forward, and no word it passes
ends after the new start. -/
theorem advance_kept (hordered : EndsInOrder c.committed)
    (hbefore : ∀ x ∈ c.committed.take c.ringIndex, x.endSample ≤ c.ringStart)
    (hbehind : ∀ x ∈ c.committed.drop c.ringIndex, c.ringStart ≤ x.endSample) :
    c.ringStart ≤ c.advanceRing.ringStart ∧
      (∀ x ∈ c.committed.take c.advanceRing.ringIndex, x.endSample ≤ c.advanceRing.ringStart) ∧
      ∀ x ∈ c.committed.drop c.advanceRing.ringIndex, c.advanceRing.ringStart ≤ x.endSample := by
  rcases advanceRing_cases c with hsame | ⟨back, index, word, -, -, hindex, hword, -, hnew⟩
  · rw [hsame]
    exact ⟨le_rfl, hbefore, hbehind⟩
  rw [hnew]
  have hplace : index - 1 + 1 = index := by omega
  obtain ⟨htake, hdrop⟩ := hordered.around hword
  rw [hplace] at htake hdrop
  refine ⟨hbehind word ?_, htake, hdrop⟩
  have hat : (c.committed.drop c.ringIndex)[index - 1 - c.ringIndex]? = some word := by
    have hsum : c.ringIndex + (index - 1 - c.ringIndex) = index - 1 := by omega
    rw [List.getElem?_drop, hsum, hword]
  exact List.mem_of_getElem? hat

/-- **Where the ring advances the overlap stays**: whatever the order of the
ends. -/
theorem advance_overlap (hback : ∀ back, c.committed.getLast? = some back →
      back.endSample < word64 ∧ c.ringStart ≤ back.endSample + kCommitTolerance)
    (hmoved : c.advanceRing.ringIndex ≠ c.ringIndex ∨ c.advanceRing.ringStart ≠ c.ringStart)
    {back : AlignedWord} (hlast : c.committed.getLast? = some back) :
    c.advanceRing.ringStart + kRetainedOverlap ≤ back.endSample := by
  rcases advanceRing_cases c with hsame | ⟨last, index, word, hlast', hnear, -, -, hle, hnew⟩
  · rw [hsame] at hmoved
    exact absurd hmoved (by simp)
  obtain rfl : last = back := Option.some.inj (hlast'.symm.trans hlast)
  obtain ⟨hrange, htol⟩ := hback last hlast
  have hoverlap := retained_le htol hnear
  rw [sub64_of_le hoverlap hrange] at hle
  rw [hnew]
  dsimp only
  omega

theorem observe_ringStart_of_none (h : c.reconciledWords d = none) :
    (c.observe d.windowStart d.windowEnd d.result).1.ringStart = c.ringStart := by
  unfold reconciledWords at h
  unfold observe
  rcases hwords : c.wordsOf d.windowStart d.windowEnd (add64 c.observedEnd 1) d.result with
    refusal | words
  · rfl
  · rw [hwords] at h
    have hanchored : c.anchored words = none := by simpa using h
    have hnone : ({ c with observedEnd := d.windowEnd } : TranscriptCommitment).anchored words =
        none := hanchored
    simp [hnone]

/-- A ring that stays where it was is kept. -/
theorem Ring.stay (h : c.Ring) (h₁ : c'.committed = c.committed) (h₂ : c'.ringIndex = c.ringIndex)
    (h₃ : c'.ringStart = c.ringStart) : c'.Ring := by
  refine ⟨?_, h₁ ▸ h.range, h₁ ▸ h.ordered, ?_, ?_⟩
  · unfold RingFits
    rw [h₁, h₂]
    exact h.fits
  · rw [h₁, h₂, h₃]
    exact h.before
  · rw [h₁, h₂, h₃]
    exact h.behind

theorem Ring.follows (h : c.Ring) (hpos : 0 < c.ringIndex) : c.ringIndex < c.committed.length := by
  rcases h.fits with ⟨-, hzero⟩ | hlt
  · omega
  · exact hlt

/-- What a reconciled decode has committed before the ring advances. -/
theorem Ring.append (h : c.Ring) (hd : c.CommitsInOrder d)
    (hw : c.reconciledWords d = some words) :
    let new := c.committed ++ words.take (c.stableFrom 0 words)
    EndsInOrder new ∧ (∀ x ∈ new.take c.ringIndex, x.endSample ≤ c.ringStart) ∧
      ∀ x ∈ new.drop c.ringIndex, c.ringStart ≤ x.endSample := by
  have hle := h.fits.index_le
  refine ⟨h.ordered.append (hd words hw), ?_, ?_⟩
  · rw [List.take_append_of_le_length hle]
    exact h.before
  · rw [List.drop_append_of_le_length hle]
    intro x hx
    rcases List.mem_append.1 hx with hx | hx
    · exact h.behind x hx
    · -- a word of the window does not end before the ring start
      obtain ⟨decoded, heard, repeated, hrepeats, hdecoded⟩ := reconciledWords_eq_some hw
      have hmem : x ∈ decoded := by
        rw [hrepeats.split]
        exact List.mem_append_right _ (List.mem_of_mem_take hx)
      exact (hdecoded x hmem).1

/-- **A call that commits in order keeps the ring.** -/
theorem Ring.observe (h : c.Ring) (hd : c.CommitsInOrder d) :
    (c.observe d.windowStart d.windowEnd d.result).1.Ring ∧
      RingKept c (c.observe d.windowStart d.windowEnd d.result).1 := by
  rcases hw : c.reconciledWords d with _ | words
  · obtain ⟨hcommitted, -, -, hindex, -⟩ := observe_of_none hw
    have hstart := observe_ringStart_of_none hw
    have hring := h.stay hcommitted hindex hstart
    refine ⟨hring, Nat.le_of_eq hstart.symm, hring.before, hring.follows, fun hmoved => ?_⟩
    exact absurd hmoved (by simp [hindex, hstart])
  · obtain ⟨hordered, hbefore, hbehind⟩ := h.append hd hw
    have hcommitted := (observe_commit hw).1
    -- the commitment with its new words, before the ring advances
    obtain ⟨mid, hmid, hlist, hindex, hstart⟩ : ∃ mid : TranscriptCommitment,
        (c.observe d.windowStart d.windowEnd d.result).1 = mid.advanceRing ∧
        mid.committed = c.committed ++ words.take (c.stableFrom 0 words) ∧
        mid.ringIndex = c.ringIndex ∧ mid.ringStart = c.ringStart := by
      rw [observe_of_some hw]
      refine ⟨_, rfl, ?_, rfl, rfl⟩
      have hstable := stableFrom_congr (c := { c with observedEnd := d.windowEnd }) (d := c) rfl
        0 words
      rw [hstable]
    have hkept := advance_kept (c := mid) (hlist ▸ hordered) (by rwa [hlist, hindex, hstart])
      (by rwa [hlist, hindex, hstart])
    have hback : ∀ back, mid.committed.getLast? = some back →
        back.endSample < word64 ∧ mid.ringStart ≤ back.endSample + kCommitTolerance := by
      intro back hlast
      rw [hlist] at hlast
      rw [hstart]
      exact back_near_ringStart h.fits h.range hw hlast
    have hfits := h.fits.observe h.range hw
    have hrange := range_observe h.range hw
    rw [hmid] at hfits hrange ⊢
    rw [hstart] at hkept
    have hring : mid.advanceRing.Ring := by
      refine ⟨hfits, hrange, ?_, ?_, ?_⟩
      · rw [advanceRing_committed, hlist]
        exact hordered
      · rw [advanceRing_committed]
        exact hkept.2.1
      · rw [advanceRing_committed]
        exact hkept.2.2
    refine ⟨hring, hkept.1, hring.before, hring.follows, fun hmoved back hlast => ?_⟩
    rw [← hindex, ← hstart] at hmoved
    rw [advanceRing_committed] at hlast
    exact advance_overlap hback hmoved hlast

theorem ring_ofProfile (profile : VadProfile) (utteranceStart : ℕ) :
    (ofProfile profile utteranceStart).Ring where
  fits := .inl ⟨rfl, rfl⟩
  range := nofun
  ordered := List.Pairwise.nil
  before := nofun
  behind := nofun

/-- **The ring is kept in every run that commits in order.** Its start never
decreases, the committed words before its index end by its start, a
committed word follows an index past the first, and where it advances it
leaves the overlap before the last committed word's end. -/
theorem ring_kept {profile : VadProfile} {utteranceStart : ℕ}
    (hrun : Run observed CommitsInOrder (ofProfile profile utteranceStart) c)
    (hd : c.CommitsInOrder d) :
    RingKept c (c.observe d.windowStart d.windowEnd d.result).1 := by
  have hring : c.Ring := by
    refine hrun.invariant (I := Ring) (ring_ofProfile profile utteranceStart) ?_
    intro c d c' hring hd hstep
    obtain rfl := Option.some.inj hstep
    exact (hring.observe hd).1
  exact (hring.observe hd).2

/-- Three words whose ends are given; their starts are in order. -/
def threeWords (first second third : ℕ) : TranscriptResult :=
  ⟨[97, 32, 98, 32, 99], [1, 2, 3],
    [⟨[97], 0, 1, 0, first⟩, ⟨[32, 98], 1, 2, 100, second⟩, ⟨[32, 99], 2, 3, 200, third⟩]⟩

/-- Two decodes of the same words, in the order of their ends, take the ring
past the second. -/
theorem ring_kept_three :
    let d : Decode := ⟨0, 50000, threeWords 9000 20000 40000, by decide, by decide⟩
    let d' : Decode := ⟨0, 50001, threeWords 9000 20000 40000, by decide, by decide⟩
    let c := ((ofProfile { commitAgreement := 2 } 0).observe d.windowStart d.windowEnd d.result).1
    (c.observe d'.windowStart d'.windowEnd d'.result).1.ringStart = 20000 ∧
      RingKept c (c.observe d'.windowStart d'.windowEnd d'.result).1 := by
  intro d d' c
  have hwords : c.reconciledWords d' = some [⟨[97], [1], 0, 9000⟩, ⟨[32, 98], [2], 100, 20000⟩,
      ⟨[32, 99], [3], 200, 40000⟩] := by decide +kernel
  have hinit : CommitsInOrder (ofProfile { commitAgreement := 2 } 0) d := by
    intro words hw
    have hnone : (ofProfile { commitAgreement := 2 } 0).stableFrom 0 words = 0 := by
      cases words <;> rfl
    rw [hnone]
    exact List.Pairwise.nil
  have hd : c.CommitsInOrder d' := by
    intro words hw
    obtain rfl := Option.some.inj (hwords.symm.trans hw)
    unfold EndsInOrder
    decide +kernel
  have hrun : Run observed CommitsInOrder (ofProfile { commitAgreement := 2 } 0) c :=
    .tail .refl hinit (show observed _ d = some c from rfl)
  exact ⟨by decide +kernel, ring_kept hrun hd⟩

/-- **A ring start before the end of a word it passed.** The second of three
words ends before the first. Both are passed, and the ring starts at the
second one's end, 9000, with the first ending at 20000. -/
theorem ring_passes_late_end :
    let d : Decode := ⟨0, 50000, threeWords 20000 9000 40000, by decide, by decide⟩
    let d' : Decode := ⟨0, 50001, threeWords 20000 9000 40000, by decide, by decide⟩
    let c := ((ofProfile { commitAgreement := 2 } 0).observe d.windowStart d.windowEnd d.result).1
    ¬RingKept c (c.observe d'.windowStart d'.windowEnd d'.result).1 := by
  intro d d' c hkept
  exact absurd hkept.before (by decide +kernel)

end TranscriptCommitment

end Serving

end Tensorplate
