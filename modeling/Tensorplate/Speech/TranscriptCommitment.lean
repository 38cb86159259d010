import Mathlib.Data.List.Forall2
import Mathlib.Data.List.Induction
import Mathlib.Tactic.Set
import Tensorplate.Speech.Model.TranscriptCommitment

/-!
# What commits a word

Beside the commitment stands the record of the decodes it reconciled, each
with its words after the committed ones it repeated and how many were
committed then. The history is a view of the record's last entries, each
shifted by what was committed since; so words compared by position are
compared at the same place of the transcript.
-/

namespace Tensorplate

namespace Serving

open Lib

namespace TranscriptCommitment

/-! ## A run -/

/-- One call of `observe`: a window, and the decode of it, which
`JobResult::create` accepted. -/
structure Decode where
  windowStart : ℕ
  windowEnd : ℕ
  result : TranscriptResult
  inRange : windowEnd < word64
  accepted : result.validate = .ok ()

/-- No word of the decode ends within the guard of the largest offset. -/
def Decode.Fits (d : Decode) : Prop :=
  ∀ word ∈ d.result.words, word.endSample + kCommitGuard < word64

/-- The words of a decode after the committed ones it repeats, where it is
reconciled. -/
def reconciledWords (c : TranscriptCommitment) (d : Decode) : Option (List AlignedWord) :=
  match c.wordsOf d.windowStart d.windowEnd (add64 c.observedEnd 1) d.result with
  | .error _ => none
  | .ok words => (c.anchored words).map fun anchors => words.drop anchors

/-- A reconciled decode: its words after the committed ones it repeated,
how many were committed then, and where its window ended. -/
structure Reconciled where
  base : ℕ
  words : List AlignedWord
  stop : ℕ
  deriving DecidableEq

/-- The word a reconciled decode holds at place `n` of the transcript. -/
def Reconciled.wordAt (d : Reconciled) (n : ℕ) : Option AlignedWord := d.words[n - d.base]?

/-- A commitment and the decodes it reconciled, oldest first. -/
structure Watched where
  commitment : TranscriptCommitment
  decodes : List Reconciled := []

/-- One more decode. -/
def Watched.observe (w : Watched) (d : Decode) : Watched where
  commitment := (w.commitment.observe d.windowStart d.windowEnd d.result).1
  decodes := w.decodes ++
    ((w.commitment.reconciledWords d).map fun words =>
      ⟨w.commitment.committed.length, words, d.windowEnd⟩).toList

/-- **A new commitment under a sequence of decodes.** -/
def watched (profile : VadProfile) (utteranceStart : ℕ) (ds : List Decode) : Watched :=
  ds.foldl Watched.observe ⟨ofProfile profile utteranceStart, []⟩

/-- The reconciled decodes the next one is compared with: the last, as
many as the agreement count less one. -/
def recent (agreement : ℕ) (decodes : List Reconciled) : List Reconciled :=
  decodes.drop (decodes.length - (agreement - 1))

/-! ## The words of a decode -/

theorem wordsLoop_mem {windowEnd : ℕ} {tokens : List ℕ} {units : List WordUnit}
    {start token : ℕ} {words : List AlignedWord}
    (h : wordsLoop windowEnd tokens start token units = .ok words) :
    ∀ w ∈ words, start ≤ w.startSample ∧ w.startSample ≤ w.endSample ∧
      w.endSample ≤ windowEnd ∧ ∃ unit ∈ units, unit.endSample = w.endSample := by
  induction units generalizing start token words with
  | nil =>
    obtain rfl := Except.ok.inj h
    simp
  | cons unit units ih =>
    rw [wordsLoop] at h
    split at h
    · simp at h
    next hgood =>
    simp only [Bool.or_eq_true, decide_eq_true_eq, not_or, not_lt, not_le] at hgood
    obtain ⟨⟨⟨⟨⟨hstart, horder⟩, hend⟩, -⟩, -⟩, -⟩ := hgood
    split at h
    · simp at h
    next rest hrest =>
    obtain rfl := Except.ok.inj h
    intro w hw
    rcases List.mem_cons.1 hw with rfl | hw
    · exact ⟨hstart, horder, hend, unit, by simp, rfl⟩
    · obtain ⟨h₁, h₂, h₃, unit', hunit, h₄⟩ := ih hrest w hw
      exact ⟨Nat.le_trans hstart h₁, h₂, h₃, unit', by simp [hunit], h₄⟩

/-- **The words of a decode lie in its window**, which starts at the ring
start. -/
theorem wordsOf_mem {c : TranscriptCommitment} {windowStart windowEnd minEnd : ℕ}
    {result : TranscriptResult} {words : List AlignedWord}
    (h : c.wordsOf windowStart windowEnd minEnd result = .ok words) :
    ∀ w ∈ words, c.ringStart ≤ w.endSample ∧ w.endSample ≤ windowEnd ∧
      ∃ unit ∈ result.words, unit.endSample = w.endSample := by
  unfold wordsOf at h
  split at h
  · simp at h
  next hwindow =>
  simp only [ne_eq, Bool.or_eq_true, decide_eq_true_eq, not_or, not_not, not_le, not_lt] at hwindow
  obtain ⟨⟨hstart, -⟩, -⟩ := hwindow
  intro w hw
  obtain ⟨h₁, h₂, h₃, hunit⟩ := wordsLoop_mem h w hw
  exact ⟨by omega, h₃, hunit⟩

/-! ## The words that repeat committed ones -/

theorem repeatsLoop_eq_some {anchors words : List AlignedWord} {n : ℕ}
    (h : repeatsLoop anchors words = some n) :
    ∃ repeated rest, words = repeated ++ rest ∧ repeated.length = n ∧
      List.Forall₂ (fun anchor word => anchor.repeats word = true) anchors repeated := by
  induction anchors generalizing words n with
  | nil =>
    obtain rfl : 0 = n := by simpa [repeatsLoop] using h
    exact ⟨[], words, rfl, rfl, .nil⟩
  | cons anchor anchors ih =>
    cases words with
    | nil => simp [repeatsLoop] at h
    | cons word words =>
      rw [repeatsLoop] at h
      split at h
      · next hr =>
        obtain ⟨m, hm, rfl⟩ := Option.map_eq_some_iff.1 h
        obtain ⟨repeated, rest, rfl, rfl, hall⟩ := ih hm
        exact ⟨word :: repeated, rest, rfl, rfl, .cons hr hall⟩
      · simp at h

/-- **What a decode repeats**: perhaps the word before the ring start heard
again, then the committed words after the ring start one to one. -/
structure Repeats (c : TranscriptCommitment) (words heard repeated rest : List AlignedWord) :
    Prop where
  split : words = heard ++ repeated ++ rest
  anchors : List.Forall₂ (fun anchor word => anchor.repeats word = true) c.anchors repeated
  heard : heard = [] ∨ ∃ word before anchor, heard = [word] ∧ 0 < c.ringIndex ∧
    c.committed[c.ringIndex - 1]? = some before ∧ sameBody word.text before.text = true ∧
    word.endSample ≤ c.ringStart + kCommitTolerance ∧
    c.committed[c.ringIndex]? = some anchor ∧ anchor.repeats word = false

theorem add64_le (a b : ℕ) : add64 a b ≤ a + b := Nat.mod_le _ _

theorem anchored_eq_some {c : TranscriptCommitment} {words : List AlignedWord} {n : ℕ}
    (h : c.anchored words = some n) :
    ∃ heard repeated, Repeats c words heard repeated (words.drop n) := by
  unfold anchored at h
  split at h
  · next hheard =>
    split at h
    · next anchor others first rest hanchors =>
      split at h
      · simp at h
      next hambiguous =>
      obtain ⟨m, hm, rfl⟩ := Option.map_eq_some_iff.1 h
      obtain ⟨repeated, later, hrest, rfl, hall⟩ := repeatsLoop_eq_some hm
      refine ⟨[first], repeated, ⟨?_, hall, .inr ?_⟩⟩
      · rw [List.drop_succ_cons, hrest]
        simp
      · unfold heardAgain at hheard
        split at hheard
        · next before hfirst hbefore =>
          obtain ⟨rfl, -⟩ := List.cons.inj hfirst
          simp only [gt_iff_lt, Bool.and_eq_true, decide_eq_true_eq] at hheard
          obtain ⟨⟨hpos, hend⟩, hbody⟩ := hheard
          refine ⟨_, before, anchor, rfl, hpos, hbefore, hbody,
            Nat.le_trans hend (add64_le _ _), ?_,
            by simpa using hambiguous⟩
          have hget := congrArg (·[0]?) hanchors
          simpa [TranscriptCommitment.anchors, List.getElem?_drop] using hget
        · simp at hheard
    · simp at h
  · obtain ⟨repeated, rest, hwords, hlen, hall⟩ := repeatsLoop_eq_some h
    refine ⟨[], repeated, ⟨?_, hall, .inl rfl⟩⟩
    rw [hwords, ← hlen]
    simp

/-! ## The words that settle -/

/-- What `settled` has met lies between its extremes. -/
structure Within (e : Extremes) (word : AlignedWord) : Prop where
  firstStart : e.firstStart ≤ word.startSample
  lastStart : word.startSample ≤ e.lastStart
  firstEnd : e.firstEnd ≤ word.endSample
  lastEnd : word.endSample ≤ e.lastEnd

/-- Two words between the same extremes. -/
theorem Within.distance {e : Extremes} {word word' : AlignedWord} (h : Within e word)
    (h' : Within e word') :
    sampleDistance word.startSample word'.startSample ≤ e.lastStart - e.firstStart ∧
      sampleDistance word.endSample word'.endSample ≤ e.lastEnd - e.firstEnd := by
  obtain ⟨h₁, h₂, h₃, h₄⟩ := h
  obtain ⟨h₁', h₂', h₃', h₄'⟩ := h'
  unfold sampleDistance
  constructor <;> split <;> omega

theorem settledLoop_eq_some {index : ℕ} {word : AlignedWord} {e e' : Extremes}
    {history : List Snapshot} (h : settledLoop index word e history = some e') :
    (∀ x, Within e x → Within e' x) ∧
      (∀ snapshot ∈ history, ∃ earlier, snapshot.words[index]? = some earlier ∧
        sameBody earlier.text word.text = true ∧ earlier.tokens = word.tokens ∧
        Within e' earlier) ∧
      (e'.lastEnd = e.lastEnd ∨ ∃ snapshot ∈ history, ∃ earlier,
        snapshot.words[index]? = some earlier ∧ e'.lastEnd = earlier.endSample) := by
  induction history generalizing e with
  | nil =>
    obtain rfl : e = e' := by simpa [settledLoop] using h
    exact ⟨fun _ hx => hx, by simp, .inl rfl⟩
  | cons snapshot rest ih =>
    rw [settledLoop] at h
    split at h
    · simp at h
    next earlier hearlier =>
    split at h
    · simp at h
    next hsame =>
    simp only [Bool.or_eq_true, Bool.not_eq_true', ne_eq, decide_eq_true_eq, not_or,
      Bool.not_eq_false, Decidable.not_not] at hsame
    obtain ⟨hmono, hall, hlast⟩ := ih h
    have hwiden : ∀ x, Within e x → Within e' x := by
      intro x hx
      apply hmono
      obtain ⟨h₁, h₂, h₃, h₄⟩ := hx
      exact ⟨by dsimp only; omega, by dsimp only; omega, by dsimp only; omega,
        by dsimp only; omega⟩
    have hthis : Within e' earlier := by
      apply hmono
      exact ⟨by dsimp only; omega, by dsimp only; omega, by dsimp only; omega,
        by dsimp only; omega⟩
    refine ⟨hwiden, ?_, ?_⟩
    · intro s hs
      rcases List.mem_cons.1 hs with rfl | hs
      · exact ⟨earlier, hearlier, hsame.1, hsame.2, hthis⟩
      · exact hall s hs
    · rcases hlast with hlast | ⟨s, hs, x, hx, hlast⟩
      · rcases Nat.le_total e.lastEnd earlier.endSample with hle | hle
        · refine .inr ⟨snapshot, by simp, earlier, hearlier, ?_⟩
          rw [hlast]
          exact Nat.max_eq_right hle
        · refine .inl ?_
          rw [hlast]
          exact Nat.max_eq_left hle
      · exact .inr ⟨s, by simp [hs], x, hx, hlast⟩

/-- **A settled word** and its like in every snapshot of the history. -/
theorem settled_eq_true {c : TranscriptCommitment} {index : ℕ} {word : AlignedWord}
    (h : c.settled index word = true) :
    ∃ e : Extremes, e.lastStart - e.firstStart ≤ kCommitTolerance ∧
      e.lastEnd - e.firstEnd ≤ kCommitTolerance ∧
      (∃ oldest, c.history.head? = some oldest ∧ add64 e.lastEnd kCommitGuard ≤ oldest.stop) ∧
      Within e word ∧
      (∀ snapshot ∈ c.history, ∃ earlier, snapshot.words[index]? = some earlier ∧
        sameBody earlier.text word.text = true ∧ earlier.tokens = word.tokens ∧
        Within e earlier) ∧
      (e.lastEnd = word.endSample ∨ ∃ snapshot ∈ c.history, ∃ earlier,
        snapshot.words[index]? = some earlier ∧ e.lastEnd = earlier.endSample) := by
  unfold settled at h
  split at h
  · simp at h
  next e he =>
  obtain ⟨hmono, hall, hlast⟩ := settledLoop_eq_some he
  simp only [Bool.and_eq_true, decide_eq_true_eq, Option.any_eq_true] at h
  obtain ⟨⟨hstarts, hends⟩, oldest, holdest, hguard⟩ := h
  refine ⟨e, hstarts, hends, ⟨oldest, holdest, hguard⟩, ?_, hall, hlast⟩
  exact hmono word ⟨Nat.le_refl _, Nat.le_refl _, Nat.le_refl _, Nat.le_refl _⟩

theorem stableFrom_le (c : TranscriptCommitment) (index : ℕ) (words : List AlignedWord) :
    c.stableFrom index words ≤ words.length := by
  induction words generalizing index with
  | nil => simp [stableFrom]
  | cons word rest ih =>
    rw [stableFrom]
    split
    · simpa using ih (index + 1)
    · simp

/-- Every word the loop counts settled at its index. -/
theorem settled_of_lt_stableFrom (c : TranscriptCommitment) (index : ℕ) {i : ℕ}
    (words : List AlignedWord) (h : i < c.stableFrom index words) :
    ∃ word, words[i]? = some word ∧ c.settled (index + i) word = true := by
  induction words generalizing index i with
  | nil => simp [stableFrom] at h
  | cons word rest ih =>
    rw [stableFrom] at h
    split at h
    · next hsettled =>
      cases i with
      | zero => exact ⟨word, rfl, hsettled⟩
      | succ i =>
        obtain ⟨w, hw, hs⟩ := ih (index + 1) (Nat.lt_of_succ_lt_succ h)
        refine ⟨w, by simpa using hw, ?_⟩
        rw [Nat.add_assoc, Nat.add_comm 1 i] at hs
        exact hs
    · simp at h

/-- **The history holds what is erased from it.** -/
theorem stableFrom_le_snapshot (c : TranscriptCommitment) (words : List AlignedWord)
    {snapshot : Snapshot} (hs : snapshot ∈ c.history) :
    c.stableFrom 0 words ≤ snapshot.words.length := by
  rcases Nat.eq_zero_or_pos (c.stableFrom 0 words) with hzero | hpos
  · omega
  obtain ⟨word, -, hsettled⟩ := settled_of_lt_stableFrom c 0 words (Nat.sub_one_lt_of_lt hpos)
  obtain ⟨e, -, -, -, -, hall, -⟩ := settled_eq_true hsettled
  obtain ⟨earlier, hearlier, -⟩ := hall snapshot hs
  have := (List.getElem?_eq_some_iff.1 hearlier).1
  omega

/-! ## The ring -/

theorem length_takeWhile_lt {l : List AlignedWord} {p : AlignedWord → Bool} {x : AlignedWord}
    (hx : x ∈ l) (hp : p x = false) : (l.takeWhile p).length < l.length := by
  induction l with
  | nil => simp at hx
  | cons y l ih =>
    rw [List.takeWhile_cons]
    split
    · next hy =>
      rcases List.mem_cons.1 hx with rfl | hx
      · simp [hp] at hy
      · simpa using ih hx
    · simp

/-- The ring start leaves a committed word after it. -/
def RingFits (c : TranscriptCommitment) : Prop :=
  (c.committed = [] ∧ c.ringIndex = 0) ∨ c.ringIndex < c.committed.length

@[simp] theorem advanceRing_committed (c : TranscriptCommitment) :
    c.advanceRing.committed = c.committed := by
  unfold advanceRing
  split
  · rfl
  · split
    · rfl
    · dsimp only
      split
      · split <;> rfl
      · rfl

@[simp] theorem advanceRing_history (c : TranscriptCommitment) :
    c.advanceRing.history = c.history := by
  unfold advanceRing
  split
  · rfl
  · split
    · rfl
    · dsimp only
      split
      · split <;> rfl
      · rfl

@[simp] theorem advanceRing_agreement (c : TranscriptCommitment) :
    c.advanceRing.agreement = c.agreement := by
  unfold advanceRing
  split
  · rfl
  · split
    · rfl
    · dsimp only
      split
      · split <;> rfl
      · rfl

/-- Where the ring may advance the overlap lies before the last word's end:
that word ends no more than the tolerance before the ring start, so neither
sum nor difference of its bound wraps to a value past its end. -/
theorem retained_le {ringStart last : ℕ} (htol : ringStart ≤ last + kCommitTolerance)
    (hretained : ¬last < add64 ringStart kRetainedOverlap) : kRetainedOverlap ≤ last := by
  rcases Nat.lt_or_ge (ringStart + kRetainedOverlap) word64 with hsum | hsum
  · rw [add64_of_lt hsum] at hretained
    omega
  · have h₁ : kRetainedOverlap = 16000 := rfl
    have h₂ : kCommitTolerance = 2560 := rfl
    have h₃ : word64 = 18446744073709551616 := rfl
    omega

/-- **The ring advances to a word before the last.** -/
theorem RingFits.advanceRing {c : TranscriptCommitment} (hc : c.RingFits)
    (hback : ∀ back, c.committed.getLast? = some back →
      back.endSample < word64 ∧ c.ringStart ≤ back.endSample + kCommitTolerance) :
    c.advanceRing.RingFits := by
  rcases hc with ⟨hnil, hzero⟩ | hlt
  · left
    unfold TranscriptCommitment.advanceRing
    simp [hnil, hzero]
  right
  rw [advanceRing_committed]
  unfold TranscriptCommitment.advanceRing
  split
  · exact hlt
  next back hlast =>
  split
  · exact hlt
  next hretained =>
  dsimp only
  split
  swap
  · exact hlt
  split
  · exact hlt
  obtain ⟨hrange, htol⟩ := hback back hlast
  have hoverlap : kRetainedOverlap ≤ back.endSample := retained_le htol hretained
  have hlatest : sub64 back.endSample kRetainedOverlap < back.endSample := by
    rw [sub64_of_le hoverlap hrange]
    have h₁ : kRetainedOverlap = 16000 := rfl
    omega
  have hmem : back ∈ c.anchors := by
    obtain ⟨front, hfront⟩ := List.getLast?_eq_some_iff.1 hlast
    have hlen : c.ringIndex ≤ front.length := by
      rw [hfront, List.length_append, List.length_singleton] at hlt
      omega
    unfold anchors
    rw [hfront, List.drop_append_of_le_length hlen]
    simp
  have hended : endedBy (sub64 back.endSample kRetainedOverlap) c.anchors < c.anchors.length :=
    length_takeWhile_lt hmem (by simpa using hlatest)
  have hanchors : c.anchors.length = c.committed.length - c.ringIndex := List.length_drop
  dsimp only
  omega

/-! ## One decode -/

theorem observe_of_none {c : TranscriptCommitment} {d : Decode} (h : c.reconciledWords d = none) :
    let c' := (c.observe d.windowStart d.windowEnd d.result).1
    c'.committed = c.committed ∧ c'.history = c.history ∧ c'.agreement = c.agreement ∧
      c'.ringIndex = c.ringIndex ∧
      ∀ step, (c.observe d.windowStart d.windowEnd d.result).2 = .ok step →
        step.newlyCommitted = 0 := by
  unfold reconciledWords at h
  unfold observe
  cases hwords : c.wordsOf d.windowStart d.windowEnd (add64 c.observedEnd 1) d.result with
  | error refusal => simp
  | ok words =>
    rw [hwords] at h
    have hnone : c.anchored words = none := by simpa using h
    have hnone' : ({ c with observedEnd := d.windowEnd } : TranscriptCommitment).anchored words =
        none := hnone
    simp [hnone']

theorem observe_of_some {c : TranscriptCommitment} {d : Decode} {words : List AlignedWord}
    (h : c.reconciledWords d = some words) :
    c.observe d.windowStart d.windowEnd d.result =
      ((({ c with observedEnd := d.windowEnd } : TranscriptCommitment).commit d.windowEnd words).1,
        .ok (({ c with observedEnd := d.windowEnd } : TranscriptCommitment).commit
          d.windowEnd words).2) := by
  unfold reconciledWords at h
  unfold observe
  cases hwords : c.wordsOf d.windowStart d.windowEnd (add64 c.observedEnd 1) d.result with
  | error refusal =>
    rw [hwords] at h
    simp at h
  | ok decoded =>
    rw [hwords] at h
    obtain ⟨n, hn, rfl⟩ := Option.map_eq_some_iff.1 h
    have hn' : ({ c with observedEnd := d.windowEnd } : TranscriptCommitment).anchored decoded =
        some n := hn
    simp only [hn']

/-- What settles depends on the history alone. -/
theorem stableFrom_congr {c d : TranscriptCommitment} (h : c.history = d.history) (index : ℕ)
    (words : List AlignedWord) : c.stableFrom index words = d.stableFrom index words := by
  induction words generalizing index with
  | nil => rfl
  | cons word rest ih =>
    have hsettled : c.settled index word = d.settled index word := by
      unfold settled
      rw [h]
    rw [stableFrom, stableFrom, hsettled, ih]

/-- **A reconciled decode**: what it commits, and what becomes of the
history. -/
theorem observe_commit {c : TranscriptCommitment} {d : Decode} {words : List AlignedWord}
    (h : c.reconciledWords d = some words) :
    let c' := (c.observe d.windowStart d.windowEnd d.result).1
    let stable := c.stableFrom 0 words
    let erased := c.history.map fun snapshot =>
      ({ snapshot with words := snapshot.words.drop stable } : Snapshot)
    c'.committed = c.committed ++ words.take stable ∧
      c'.history = (if c.history.length + 1 = c.agreement then erased.drop 1 else erased) ++
        [⟨words.drop stable, d.windowEnd⟩] ∧
      c'.agreement = c.agreement ∧
      (c.observe d.windowStart d.windowEnd d.result).2 = .ok ⟨true, stable⟩ := by
  rw [observe_of_some h]
  have hstable := stableFrom_congr (c := { c with observedEnd := d.windowEnd }) (d := c) rfl 0 words
  simp only [commit, advanceRing_committed, advanceRing_history, advanceRing_agreement, hstable,
    List.length_map]
  exact ⟨trivial, trivial, trivial, trivial⟩

theorem reconciledWords_eq_some {c : TranscriptCommitment} {d : Decode} {words : List AlignedWord}
    (h : c.reconciledWords d = some words) :
    ∃ decoded heard repeated, Repeats c decoded heard repeated words ∧
      ∀ x ∈ decoded, c.ringStart ≤ x.endSample ∧ x.endSample ≤ d.windowEnd ∧
        ∃ unit ∈ d.result.words, unit.endSample = x.endSample := by
  unfold reconciledWords at h
  split at h
  · simp at h
  · next decoded hwords =>
    obtain ⟨n, hn, rfl⟩ := Option.map_eq_some_iff.1 h
    obtain ⟨heard, repeated, hrepeats⟩ := anchored_eq_some hn
    exact ⟨decoded, heard, repeated, hrepeats, wordsOf_mem hwords⟩

theorem exists_repeats {anchors repeated : List AlignedWord}
    (h : List.Forall₂ (fun anchor word => anchor.repeats word = true) anchors repeated)
    {back : AlignedWord} (hback : back ∈ anchors) :
    ∃ word ∈ repeated, sampleDistance back.endSample word.endSample ≤ kCommitTolerance := by
  induction h with
  | nil => simp at hback
  | cons hr _ ih =>
    rcases List.mem_cons.1 hback with rfl | hback
    · simp only [AlignedWord.repeats, Bool.and_eq_true, decide_eq_true_eq] at hr
      exact ⟨_, by simp, hr.2⟩
    · obtain ⟨word, hword, hd⟩ := ih hback
      exact ⟨word, by simp [hword], hd⟩

/-- **The last committed word** ends no more than the tolerance before the
ring start whose window was just decoded. -/
theorem back_near_ringStart {c : TranscriptCommitment} {d : Decode} {words : List AlignedWord}
    (hc : c.RingFits) (hrange : ∀ x ∈ c.committed, x.endSample < word64)
    (h : c.reconciledWords d = some words) {n : ℕ} {back : AlignedWord}
    (hlast : (c.committed ++ words.take n).getLast? = some back) :
    back.endSample < word64 ∧ c.ringStart ≤ back.endSample + kCommitTolerance := by
  obtain ⟨decoded, heard, repeated, hrepeats, hdecoded⟩ := reconciledWords_eq_some h
  have hwindow := d.inRange
  by_cases htaken : words.take n = []
  · rw [htaken, List.append_nil] at hlast
    obtain ⟨front, hfront⟩ := List.getLast?_eq_some_iff.1 hlast
    have hlt : c.ringIndex ≤ front.length := by
      rcases hc with ⟨hnil, -⟩ | hlt
      · rw [hnil] at hfront
        simp at hfront
      · rw [hfront, List.length_append, List.length_singleton] at hlt
        omega
    have hmem : back ∈ c.anchors := by
      unfold anchors
      rw [hfront, List.drop_append_of_le_length hlt]
      simp
    obtain ⟨word, hword, hd⟩ := exists_repeats hrepeats.anchors hmem
    have hstart := (hdecoded word (by simp [hrepeats.split, hword])).1
    refine ⟨hrange back (by simp [hfront]), ?_⟩
    unfold sampleDistance at hd
    split at hd <;> omega
  · obtain ⟨last, hlast'⟩ := Option.isSome_iff_exists.1 (List.getLast?_isSome.2 htaken)
    rw [List.getLast?_append, hlast', Option.some_or, Option.some.injEq] at hlast
    subst hlast
    have hmem : last ∈ words := List.mem_of_mem_take (List.mem_of_getLast? hlast')
    obtain ⟨hstart, hend, -⟩ := hdecoded last (by simp [hrepeats.split, hmem])
    exact ⟨by omega, by omega⟩

variable {c : TranscriptCommitment} {d : Decode} {words : List AlignedWord}

theorem RingFits.append (hc : c.RingFits) (new : List AlignedWord) :
    ({ c with committed := c.committed ++ new } : TranscriptCommitment).RingFits := by
  rcases hc with ⟨hnil, hzero⟩ | hlt
  · rcases Nat.eq_zero_or_pos new.length with hnone | hsome
    · refine .inl ⟨?_, hzero⟩
      rw [List.eq_nil_of_length_eq_zero hnone, List.append_nil]
      exact hnil
    · refine .inr ?_
      simp only [hnil, hzero, List.nil_append]
      exact hsome
  · refine .inr ?_
    simp only [List.length_append]
    omega

/-- A reconciled decode leaves a committed word after the ring start. -/
theorem RingFits.observe (hc : c.RingFits) (hrange : ∀ x ∈ c.committed, x.endSample < word64)
    (h : c.reconciledWords d = some words) :
    (c.observe d.windowStart d.windowEnd d.result).1.RingFits := by
  rw [observe_of_some h]
  simp only [TranscriptCommitment.commit]
  refine RingFits.advanceRing ?_ fun back hback => back_near_ringStart hc hrange h hback
  exact hc.append _

theorem range_observe (hrange : ∀ x ∈ c.committed, x.endSample < word64)
    (h : c.reconciledWords d = some words) :
    ∀ x ∈ (c.observe d.windowStart d.windowEnd d.result).1.committed, x.endSample < word64 := by
  rw [(observe_commit h).1]
  intro x hx
  rcases List.mem_append.1 hx with hx | hx
  · exact hrange x hx
  · obtain ⟨decoded, heard, repeated, hrepeats, hdecoded⟩ := reconciledWords_eq_some h
    have hmem : x ∈ words := List.mem_of_mem_take hx
    have hend := (hdecoded x (by simp [hrepeats.split, hmem])).2.1
    have hwindow := d.inRange
    omega

/-! ## The history is a view of the record -/

/-- What the history holds of a reconciled decode when `n` words are
committed. -/
def snapshotAt (n : ℕ) (d : Reconciled) : Snapshot := ⟨d.words.drop (n - d.base), d.stop⟩

/-- **The commitment and its record**: the history is the last reconciled
decodes, each without what was committed since, behind one empty snapshot
while they are too few. -/
structure Tracks (agreement : ℕ) (w : Watched) : Prop where
  agreed : w.commitment.agreement = agreement
  history : w.commitment.history =
    (if w.decodes.length < agreement - 1 then [Snapshot.mk [] 0] else []) ++
      (recent agreement w.decodes).map (snapshotAt w.commitment.committed.length)
  held : ∀ d ∈ recent agreement w.decodes, d.base ≤ w.commitment.committed.length ∧
    w.commitment.committed.length - d.base ≤ d.words.length
  ring : w.commitment.RingFits
  range : ∀ x ∈ w.commitment.committed, x.endSample < word64

theorem tracks_start {profile : VadProfile} (hk : 2 ≤ profile.commitAgreement)
    (utteranceStart : ℕ) :
    Tracks profile.commitAgreement ⟨ofProfile profile utteranceStart, []⟩ := by
  refine ⟨rfl, ?_, by simp [recent], .inl ⟨rfl, rfl⟩, by simp [ofProfile]⟩
  have hshort : 0 < profile.commitAgreement - 1 := by omega
  simp [ofProfile, recent, hshort]

/-- While reconciled decodes are too few, nothing settles. -/
theorem Tracks.stable_of_short {agreement : ℕ} {w : Watched} (hw : Tracks agreement w)
    (hshort : w.decodes.length < agreement - 1) (words : List AlignedWord) :
    w.commitment.stableFrom 0 words = 0 := by
  have hmem : Snapshot.mk [] 0 ∈ w.commitment.history := by
    rw [hw.history, if_pos hshort]
    simp
  have := stableFrom_le_snapshot w.commitment words hmem
  simpa using this

theorem recent_of_short {agreement : ℕ} {decodes : List Reconciled}
    (h : decodes.length ≤ agreement - 1) : recent agreement decodes = decodes := by
  unfold recent
  rw [Nat.sub_eq_zero_of_le h, List.drop_zero]

theorem length_recent {agreement : ℕ} {decodes : List Reconciled}
    (h : agreement - 1 ≤ decodes.length) : (recent agreement decodes).length = agreement - 1 := by
  unfold recent
  rw [List.length_drop]
  omega

/-- One more reconciled decode, where there were enough. -/
theorem recent_append {agreement : ℕ} {decodes : List Reconciled} (d : Reconciled)
    (hk : 2 ≤ agreement) (h : agreement - 1 ≤ decodes.length) :
    recent agreement (decodes ++ [d]) = (recent agreement decodes).drop 1 ++ [d] := by
  unfold recent
  rw [List.drop_drop, List.length_append, List.length_singleton]
  have hdrop : decodes.length + 1 - (agreement - 1) = decodes.length - (agreement - 1) + 1 := by
    omega
  rw [hdrop, List.drop_append_of_le_length (by omega)]

/-- Erasing from a snapshot what was committed. -/
theorem erase_snapshotAt {n stable : ℕ} {d : Reconciled} (h : d.base ≤ n) :
    ({ snapshotAt n d with words := (snapshotAt n d).words.drop stable } : Snapshot) =
      snapshotAt (n + stable) d := by
  unfold snapshotAt
  rw [List.drop_drop]
  have hsum : n - d.base + stable = n + stable - d.base := by omega
  rw [hsum]

/-- **A reconciled decode keeps the view.** -/
theorem Tracks.commit {agreement : ℕ} {w : Watched} (hw : Tracks agreement w) (hk : 2 ≤ agreement)
    {d : Decode} {words : List AlignedWord} (h : w.commitment.reconciledWords d = some words) :
    Tracks agreement (w.observe d) := by
  have hobserve : w.observe d = ⟨(w.commitment.observe d.windowStart d.windowEnd d.result).1,
      w.decodes ++ [⟨w.commitment.committed.length, words, d.windowEnd⟩]⟩ := by
    simp [Watched.observe, h]
  obtain ⟨hcommitted, hhistory, hagreement, -⟩ := observe_commit h
  set n := w.commitment.committed.length with hn
  set stable := w.commitment.stableFrom 0 words with hstable
  have hle : stable ≤ words.length := stableFrom_le w.commitment 0 words
  have hlen : (w.commitment.committed ++ words.take stable).length = n + stable := by
    rw [List.length_append, List.length_take, Nat.min_eq_left hle]
  have herased : ∀ ds : List Reconciled, (∀ x ∈ ds, x.base ≤ n) →
      (ds.map (snapshotAt n)).map (fun snapshot =>
        ({ snapshot with words := snapshot.words.drop stable } : Snapshot)) =
        ds.map (snapshotAt (n + stable)) := by
    intro ds hds
    rw [List.map_map]
    exact List.map_congr_left fun x hx => erase_snapshotAt (hds x hx)
  have hnew : [Reconciled.mk n words d.windowEnd].map (snapshotAt (n + stable)) =
      [⟨words.drop stable, d.windowEnd⟩] := by
    simp [snapshotAt]
  have hbase : ∀ x ∈ recent agreement w.decodes, x.base ≤ n := fun x hx => (hw.held x hx).1
  rw [hobserve]
  refine ⟨?_, ?_, ?_, ?_, ?_⟩
  · exact hagreement.trans hw.agreed
  · dsimp only
    rw [hhistory, hcommitted, hlen, hw.agreed, List.length_append, List.length_singleton]
    rcases Nat.lt_or_ge w.decodes.length (agreement - 1) with hshort | henough
    · -- Too few yet: the empty snapshot stays, or leaves with the last one missing.
      have hzero : stable = 0 := hw.stable_of_short hshort words
      have hrecent : recent agreement w.decodes = w.decodes := recent_of_short (by omega)
      have hrecent' : recent agreement (w.decodes ++ [⟨n, words, d.windowEnd⟩]) =
          w.decodes ++ [⟨n, words, d.windowEnd⟩] := recent_of_short (by simp; omega)
      have hold := hw.history
      rw [if_pos hshort, hrecent] at hold
      rw [hrecent] at hbase
      rw [hold, hrecent', List.map_append, List.map_append, herased _ hbase, hnew,
        List.length_append, List.length_map, List.length_singleton]
      by_cases hfull : 1 + w.decodes.length + 1 = agreement
      · rw [if_pos hfull, if_neg (by omega)]
        simp
      · rw [if_neg hfull, if_pos (by omega)]
        simp
    · have hold := hw.history
      rw [if_neg (by omega), List.nil_append] at hold
      rw [hold, List.length_map, length_recent henough, if_pos (by omega), if_neg (by omega),
        recent_append _ hk henough, herased _ hbase, List.nil_append, List.map_append, hnew,
        List.map_drop]
  · dsimp only
    rw [hcommitted, hlen]
    have hall : ∀ x ∈ recent agreement w.decodes, x.base ≤ n + stable ∧
        n + stable - x.base ≤ x.words.length := by
      intro x hx
      obtain ⟨hx₁, hx₂⟩ := hw.held x hx
      have hmem : snapshotAt n x ∈ w.commitment.history := by
        rw [hw.history]
        exact List.mem_append_right _ (List.mem_map_of_mem hx)
      have hsnap := stableFrom_le_snapshot w.commitment words hmem
      simp only [snapshotAt, List.length_drop] at hsnap
      omega
    intro x hx
    rcases Nat.lt_or_ge w.decodes.length (agreement - 1) with hshort | henough
    · rw [recent_of_short (by simp; omega)] at hx
      rw [recent_of_short (by omega)] at hall
      rcases List.mem_append.1 hx with hx | hx
      · exact hall x hx
      · rw [List.mem_singleton.1 hx]
        exact ⟨by simp, by simpa using hle⟩
    · rw [recent_append _ hk henough] at hx
      rcases List.mem_append.1 hx with hx | hx
      · exact hall x (List.mem_of_mem_drop hx)
      · rw [List.mem_singleton.1 hx]
        exact ⟨by simp, by simpa using hle⟩
  · exact hw.ring.observe hw.range h
  · exact range_observe hw.range h

theorem Tracks.observe {agreement : ℕ} {w : Watched} (hw : Tracks agreement w) (hk : 2 ≤ agreement)
    (d : Decode) : Tracks agreement (w.observe d) := by
  cases h : w.commitment.reconciledWords d with
  | some words => exact hw.commit hk h
  | none =>
    obtain ⟨hcommitted, hhistory, hagreement, hindex, -⟩ := observe_of_none h
    have hdecodes : (w.observe d).decodes = w.decodes := by simp [Watched.observe, h]
    refine ⟨hagreement.trans hw.agreed, ?_, ?_, ?_, ?_⟩
    · rw [hdecodes]
      exact hhistory.trans (hcommitted ▸ hw.history)
    · rw [hdecodes]
      exact hcommitted ▸ hw.held
    · unfold RingFits
      exact hcommitted ▸ hindex ▸ hw.ring
    · exact hcommitted ▸ hw.range

theorem tracks_watched {profile : VadProfile} (hk : 2 ≤ profile.commitAgreement)
    (utteranceStart : ℕ) (ds : List Decode) :
    Tracks profile.commitAgreement (watched profile utteranceStart ds) := by
  unfold watched
  induction ds using List.reverseRecOn with
  | nil => exact tracks_start hk utteranceStart
  | append_singleton ds d ih =>
    rw [List.foldl_append]
    exact ih.observe hk d

/-- Decodes that fit leave words that fit in the record. -/
theorem fits_watched (profile : VadProfile) (utteranceStart : ℕ) (ds : List Decode)
    (hfits : ∀ d ∈ ds, d.Fits) :
    ∀ r ∈ (watched profile utteranceStart ds).decodes, ∀ x ∈ r.words,
      x.endSample + kCommitGuard < word64 := by
  unfold watched
  induction ds using List.reverseRecOn with
  | nil => simp
  | append_singleton ds d ih =>
    rw [List.foldl_append]
    intro r hr x hx
    simp only [List.foldl_cons, List.foldl_nil, Watched.observe] at hr
    rcases List.mem_append.1 hr with hr | hr
    · exact ih (fun d' hd' => hfits d' (by simp [hd'])) r hr x hx
    · cases h : reconciledWords
          (ds.foldl Watched.observe ⟨ofProfile profile utteranceStart, []⟩).commitment d with
      | none => simp [h] at hr
      | some words =>
        obtain rfl : r = _ := by simpa [h] using hr
        obtain ⟨decoded, heard, repeated, hrepeats, hdecoded⟩ := reconciledWords_eq_some h
        have hmem : x ∈ decoded := by
          rw [hrepeats.split]
          exact List.mem_append_right _ hx
        obtain ⟨-, -, unit, hunit, hend⟩ := hdecoded x hmem
        rw [← hend]
        exact hfits d (by simp) unit hunit

/-! ## Every run -/

/-- **The words that agree on a place of the transcript**: every decode of
a group, oldest first, holds one there of the same body and tokens, their
starts and ends within the tolerance of one another and the ends at least
the guard before the oldest decode's end. -/
structure Agrees (group : List Reconciled) (n : ℕ) (word : AlignedWord) : Prop where
  held : ∀ d ∈ group, d.base ≤ n ∧ ∃ x, d.wordAt n = some x ∧
    sameBody x.text word.text = true ∧ x.tokens = word.tokens
  near : ∀ d ∈ group, ∀ d' ∈ group, ∀ x x', d.wordAt n = some x → d'.wordAt n = some x' →
    sampleDistance x.startSample x'.startSample ≤ kCommitTolerance ∧
      sampleDistance x.endSample x'.endSample ≤ kCommitTolerance
  guarded : ∀ oldest, group.head? = some oldest → ∀ d ∈ group, ∀ x, d.wordAt n = some x →
    x.endSample + kCommitGuard ≤ oldest.stop

/-- The word of a snapshot is the record's at its place. -/
theorem getElem?_snapshotAt {n i : ℕ} {d : Reconciled} (h : d.base ≤ n) :
    (snapshotAt n d).words[i]? = d.wordAt (n + i) := by
  unfold snapshotAt Reconciled.wordAt
  rw [List.getElem?_drop]
  have hsum : n - d.base + i = n + i - d.base := by omega
  rw [hsum]

/-- **A committed word is an agreed one.** -/
theorem Tracks.agrees {agreement : ℕ} {w : Watched} (hw : Tracks agreement w) (hk : 2 ≤ agreement)
    (hrecord : ∀ r ∈ w.decodes, ∀ x ∈ r.words, x.endSample + kCommitGuard < word64)
    {d : Decode} (hd : d.Fits) {words : List AlignedWord}
    (h : w.commitment.reconciledWords d = some words) {i : ℕ}
    (hi : i < w.commitment.stableFrom 0 words) {word : AlignedWord} (hword : words[i]? = some word) :
    (recent agreement w.decodes).length = agreement - 1 ∧
      Agrees (recent agreement w.decodes ++
        [⟨w.commitment.committed.length, words, d.windowEnd⟩])
        (w.commitment.committed.length + i) word := by
  have henough : agreement - 1 ≤ w.decodes.length := by
    by_contra hshort
    rw [hw.stable_of_short (by omega) words] at hi
    omega
  have hhistory := hw.history
  rw [if_neg (by omega), List.nil_append] at hhistory
  have hlen := length_recent henough
  obtain ⟨word', hword', hsettled⟩ := settled_of_lt_stableFrom w.commitment 0 words hi
  obtain rfl : word' = word := Option.some.inj (hword'.symm.trans hword)
  rw [Nat.zero_add] at hsettled
  obtain ⟨e, hstarts, hends, ⟨oldest, holdest, hguard⟩, hthis, hall, hlast⟩ :=
    settled_eq_true hsettled
  set n := w.commitment.committed.length with hn
  -- The current decode and each earlier one, at the place of the word.
  have hcurrent : (Reconciled.mk n words d.windowEnd).wordAt (n + i) = some word' := by
    simpa [Reconciled.wordAt] using hword
  have hearlier : ∀ r ∈ recent agreement w.decodes, ∃ x, r.wordAt (n + i) = some x ∧
      sameBody x.text word'.text = true ∧ x.tokens = word'.tokens ∧ Within e x := by
    intro r hr
    obtain ⟨x, hx, hrest⟩ := hall (snapshotAt n r) (by
      rw [hhistory]
      exact List.mem_map_of_mem hr)
    rw [getElem?_snapshotAt (hw.held r hr).1] at hx
    exact ⟨x, hx, hrest⟩
  have hgroup : ∀ r ∈ recent agreement w.decodes ++ [⟨n, words, d.windowEnd⟩],
      r.base ≤ n + i ∧ ∃ x, r.wordAt (n + i) = some x ∧ sameBody x.text word'.text = true ∧
        x.tokens = word'.tokens ∧ Within e x := by
    intro r hr
    rcases List.mem_append.1 hr with hr | hr
    · have hbase := (hw.held r hr).1
      exact ⟨by omega, hearlier r hr⟩
    · rw [List.mem_singleton.1 hr]
      exact ⟨Nat.le_add_right _ _, word', hcurrent, by simp [sameBody], rfl, hthis⟩
  -- The latest end is a word's own, so the guard's sum does not wrap.
  have hsum : e.lastEnd + kCommitGuard < word64 := by
    rcases hlast with hlast | ⟨snapshot, hsnap, x, hx, hlast⟩
    · obtain ⟨decoded, heard, repeated, hrepeats, hdecoded⟩ := reconciledWords_eq_some h
      have hmem : word' ∈ decoded := by
        rw [hrepeats.split]
        exact List.mem_append_right _ (List.mem_of_getElem? hword)
      obtain ⟨-, -, unit, hunit, hend⟩ := hdecoded word' hmem
      rw [hlast, ← hend]
      exact hd unit hunit
    · rw [hhistory] at hsnap
      obtain ⟨r, hr, rfl⟩ := List.mem_map.1 hsnap
      rw [hlast]
      refine hrecord r (List.mem_of_mem_drop hr) x ?_
      rw [getElem?_snapshotAt (hw.held r hr).1] at hx
      exact List.mem_of_getElem? hx
  rw [add64_of_lt hsum] at hguard
  refine ⟨hlen, ?_, ?_, ?_⟩
  · intro r hr
    obtain ⟨hbase, x, hx, hbody, htokens, -⟩ := hgroup r hr
    exact ⟨hbase, x, hx, hbody, htokens⟩
  · intro r hr r' hr' x x' hx hx'
    obtain ⟨-, y, hy, -, -, hwithin⟩ := hgroup r hr
    obtain ⟨-, y', hy', -, -, hwithin'⟩ := hgroup r' hr'
    obtain rfl : y = x := Option.some.inj (hy.symm.trans hx)
    obtain rfl : y' = x' := Option.some.inj (hy'.symm.trans hx')
    obtain ⟨h₁, h₂⟩ := hwithin.distance hwithin'
    exact ⟨Nat.le_trans h₁ hstarts, Nat.le_trans h₂ hends⟩
  · intro first hfirst r hr x hx
    have hstop : oldest.stop = first.stop := by
      cases hrecent : recent agreement w.decodes with
      | nil =>
        have hone : 1 ≤ agreement - 1 := Nat.le_sub_one_of_lt hk
        rw [hrecent, List.length_nil] at hlen
        rw [← hlen] at hone
        exact absurd hone (Nat.not_succ_le_zero 0)
      | cons r₀ rest =>
        rw [hrecent] at hfirst hhistory
        rw [hhistory] at holdest
        obtain rfl : snapshotAt n r₀ = oldest := by simpa using holdest
        obtain rfl : r₀ = first := by simpa using hfirst
        rfl
    obtain ⟨-, y, hy, -, -, hwithin⟩ := hgroup r hr
    obtain rfl : y = x := Option.some.inj (hy.symm.trans hx)
    have := hwithin.lastEnd
    omega

/-- **What `finalize` returns.** -/
theorem finalize_eq_ok {c : TranscriptCommitment} {windowStart windowEnd : ℕ}
    {tail : TranscriptResult} {final : List AlignedWord}
    (h : c.finalize windowStart windowEnd tail = .ok final) :
    ∃ words heard repeated rest, c.wordsOf windowStart windowEnd c.observedEnd tail = .ok words ∧
      Repeats c words heard repeated rest ∧ final = c.committed ++ rest := by
  unfold finalize at h
  split at h
  · simp at h
  · next words hwords =>
    split at h
    · simp at h
    · next n hn =>
      obtain ⟨heard, repeated, hrepeats⟩ := anchored_eq_some hn
      exact ⟨words, heard, repeated, _, hwords, hrepeats, (Except.ok.inj h).symm⟩

/-- **The commitment over every run** of decodes no word of which ends
within the guard of the largest offset. One more decode, accepted,
unreconciled or refused: extends the committed words; appends a word only
where it and the `k - 1` reconciled decodes before it agree on its place;
erases from no snapshot of the history more than it holds; and leaves a
committed word after the ring start. And `finalize` returns the committed
words followed by the tail's, without those that repeat the committed
words from the ring index on, one to one, and perhaps the word before
them, heard again at the ring start. -/
theorem commits_agreed_words (profile : VadProfile) (hk : 2 ≤ profile.commitAgreement)
    (utteranceStart : ℕ) (ds : List Decode) (d : Decode) (hfits : ∀ d' ∈ ds ++ [d], d'.Fits) :
    let w := watched profile utteranceStart ds
    let c := w.commitment
    let w' := w.observe d
    let c' := w'.commitment
    c.committed <+: c'.committed ∧
    (∀ n word, c.committed.length ≤ n → c'.committed[n]? = some word →
      ∃ current, w'.decodes = w.decodes ++ [current] ∧ current.stop = d.windowEnd ∧
        current.wordAt n = some word ∧
        (recent profile.commitAgreement w.decodes).length = profile.commitAgreement - 1 ∧
        Agrees (recent profile.commitAgreement w.decodes ++ [current]) n word) ∧
    (∀ step, (c.observe d.windowStart d.windowEnd d.result).2 = .ok step →
      c'.committed.length = c.committed.length + step.newlyCommitted ∧
      ∀ snapshot ∈ c.history, step.newlyCommitted ≤ snapshot.words.length) ∧
    (c'.committed = [] ∧ c'.ringIndex = 0 ∨ c'.ringIndex < c'.committed.length) ∧
    (∀ windowStart windowEnd tail final, c'.finalize windowStart windowEnd tail = .ok final →
      ∃ words heard repeated rest,
        c'.wordsOf windowStart windowEnd c'.observedEnd tail = .ok words ∧
        words = heard ++ repeated ++ rest ∧ final = c'.committed ++ rest ∧
        List.Forall₂ (fun anchor word => anchor.repeats word = true)
          (c'.committed.drop c'.ringIndex) repeated ∧
        (heard = [] ∨ ∃ word before anchor, heard = [word] ∧ 0 < c'.ringIndex ∧
          c'.committed[c'.ringIndex - 1]? = some before ∧ sameBody word.text before.text = true ∧
          word.endSample ≤ c'.ringStart + kCommitTolerance ∧
          c'.committed[c'.ringIndex]? = some anchor ∧ anchor.repeats word = false)) := by
  intro w c w' c'
  have hw : Tracks profile.commitAgreement w := tracks_watched hk utteranceStart ds
  have hrecord := fits_watched profile utteranceStart ds fun d' hd' => hfits d' (by simp [hd'])
  have hfinal : ∀ windowStart windowEnd tail final,
      c'.finalize windowStart windowEnd tail = .ok final →
      ∃ words heard repeated rest,
        c'.wordsOf windowStart windowEnd c'.observedEnd tail = .ok words ∧
        words = heard ++ repeated ++ rest ∧ final = c'.committed ++ rest ∧
        List.Forall₂ (fun anchor word => anchor.repeats word = true)
          (c'.committed.drop c'.ringIndex) repeated ∧
        (heard = [] ∨ ∃ word before anchor, heard = [word] ∧ 0 < c'.ringIndex ∧
          c'.committed[c'.ringIndex - 1]? = some before ∧ sameBody word.text before.text = true ∧
          word.endSample ≤ c'.ringStart + kCommitTolerance ∧
          c'.committed[c'.ringIndex]? = some anchor ∧ anchor.repeats word = false) := by
    intro windowStart windowEnd tail final h
    obtain ⟨words, heard, repeated, rest, hwords, hrepeats, hfinal⟩ := finalize_eq_ok h
    exact ⟨words, heard, repeated, rest, hwords, hrepeats.split, hfinal, hrepeats.anchors,
      hrepeats.heard⟩
  refine ⟨?_, ?_, ?_, (hw.observe hk d).ring, hfinal⟩
  · cases h : c.reconciledWords d with
    | none => exact (observe_of_none h).1 ▸ List.prefix_rfl
    | some words => exact (observe_commit h).1 ▸ List.prefix_append _ _
  · intro n word hn hword
    cases h : c.reconciledWords d with
    | none =>
      have hsame : c'.committed = c.committed := (observe_of_none h).1
      rw [hsame, List.getElem?_eq_none hn] at hword
      simp at hword
    | some words =>
      have hcommitted : c'.committed = c.committed ++ words.take (c.stableFrom 0 words) :=
        (observe_commit h).1
      rw [hcommitted, List.getElem?_append_right hn, List.getElem?_take] at hword
      split at hword
      · next hi =>
        have hplace : c.committed.length + (n - c.committed.length) = n := by omega
        obtain ⟨hlen, hagrees⟩ := hw.agrees hk hrecord (hfits d (by simp)) h hi hword
        refine ⟨⟨c.committed.length, words, d.windowEnd⟩, ?_, rfl, hword, hlen, hplace ▸ hagrees⟩
        have hdecodes : w'.decodes = w.decodes ++
            ((c.reconciledWords d).map fun words =>
              Reconciled.mk c.committed.length words d.windowEnd).toList := rfl
        rw [hdecodes, h]
        rfl
      · simp at hword
  · intro step hstep
    cases h : c.reconciledWords d with
    | none =>
      obtain ⟨hsame, -, -, -, hzero⟩ := observe_of_none h
      have hlen : c'.committed.length = c.committed.length := congrArg List.length hsame
      rw [hzero step hstep]
      exact ⟨hlen, fun _ _ => Nat.zero_le _⟩
    | some words =>
      obtain ⟨hcommitted, -, -, hans⟩ := observe_commit h
      obtain rfl : (⟨true, c.stableFrom 0 words⟩ : CommitStep) = step :=
        Except.ok.inj (hans.symm.trans hstep)
      refine ⟨?_, fun snapshot hs => stableFrom_le_snapshot c words hs⟩
      have hlen : c'.committed.length = (c.committed ++ words.take (c.stableFrom 0 words)).length :=
        congrArg List.length hcommitted
      rw [hlen, List.length_append, List.length_take, Nat.min_eq_left (stableFrom_le c 0 words)]

/-- One word, decoded from `[start, last)` of a window. -/
def oneWord (start last : ℕ) : TranscriptResult :=
  ⟨[104, 105], [7], [⟨[32, 104, 105, 46], 0, 1, start, last⟩]⟩

/-- Two decodes that agree on a word at the start of the timeline. -/
theorem commits_agreed_words_twice :
    let d : Decode := ⟨0, 20000, oneWord 1000 9000, by decide, by decide⟩
    let d' : Decode := ⟨0, 21000, oneWord 1000 9000, by decide, by decide⟩
    let w := watched { commitAgreement := 2 } 0 [d]
    w.commitment.committed = [] ∧
      (w.observe d').commitment.committed = [⟨[32, 104, 105, 46], [7], 1000, 9000⟩] ∧
      Agrees [⟨0, [⟨[32, 104, 105, 46], [7], 1000, 9000⟩], 20000⟩,
        ⟨0, [⟨[32, 104, 105, 46], [7], 1000, 9000⟩], 21000⟩] 0
          ⟨[32, 104, 105, 46], [7], 1000, 9000⟩ := by
  intro d d' w
  have hfits : ∀ x ∈ [d] ++ [d'], x.Fits := by
    intro x hx
    simp only [List.cons_append, List.nil_append, List.mem_cons, List.not_mem_nil, or_false] at hx
    unfold Decode.Fits
    rcases hx with rfl | rfl <;> decide
  have hcommitted : (w.observe d').commitment.committed =
      [⟨[32, 104, 105, 46], [7], 1000, 9000⟩] := by decide
  obtain ⟨current, hdecodes, -, -, -, hagrees⟩ :=
    (commits_agreed_words { commitAgreement := 2 } (by decide) 0 [d] d' hfits).2.1 0
      ⟨[32, 104, 105, 46], [7], 1000, 9000⟩ (by decide) (by rw [hcommitted]; rfl)
  have hcurrent : (w.observe d').decodes = w.decodes ++
      [⟨0, [⟨[32, 104, 105, 46], [7], 1000, 9000⟩], 21000⟩] := by decide
  obtain rfl : current = ⟨0, [⟨[32, 104, 105, 46], [7], 1000, 9000⟩], 21000⟩ := by
    have := List.append_cancel_left (hdecodes.symm.trans hcurrent)
    simpa using this
  exact ⟨by decide, hcommitted, hagrees⟩

/-- **The guard wraps.** Two decodes near the largest offset agree on a
word: the sum of its end and the guard wraps, and the word commits though
the oldest decode ends 98 samples after it. -/
theorem commits_within_guard_near_limit :
    let d : Decode := ⟨2 ^ 64 - 10000, 2 ^ 64 - 2, oneWord (2 ^ 64 - 9000) (2 ^ 64 - 100),
      by decide, by decide⟩
    let d' : Decode := ⟨2 ^ 64 - 10000, 2 ^ 64 - 1, oneWord (2 ^ 64 - 9000) (2 ^ 64 - 100),
      by decide, by decide⟩
    let w := watched { commitAgreement := 2 } (2 ^ 64 - 10000) [d]
    w.commitment.committed = [] ∧
      (w.observe d').commitment.committed =
        [⟨[32, 104, 105, 46], [7], 2 ^ 64 - 9000, 2 ^ 64 - 100⟩] ∧
      w.decodes = [⟨0, [⟨[32, 104, 105, 46], [7], 2 ^ 64 - 9000, 2 ^ 64 - 100⟩], 2 ^ 64 - 2⟩] ∧
      ¬ (2 ^ 64 - 100 + kCommitGuard ≤ 2 ^ 64 - 2) := by
  decide

end TranscriptCommitment

end Serving

end Tensorplate
