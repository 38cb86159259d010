import Mathlib.Algebra.BigOperators.Group.Finset.Basic
import Mathlib.Algebra.BigOperators.Intervals
import Mathlib.Algebra.BigOperators.Ring.List
import Mathlib.Tactic.Ring
import Tensorplate.Lib.Ring
import Tensorplate.Speech.Model.Resampler

/-!
# The resampler against its reference

The runtime filters a stream: it keeps the last inputs in a ring and
emits an output once its inputs have arrived, or early when it is
flushed. The reference filters a whole clip. Both sums at output `n` run
over the inputs within the filter's reach of `n`, so a streamed sample is
the reference's over every input that had arrived, and over the whole
clip where nothing later is in reach.
-/

namespace Tensorplate

namespace Serving

open Lib Finset

namespace TelephonyResampler

/-! ## The two sums at one output -/

/-- The tap input `i` meets at output `n`. -/
def tapOf (n i : ℕ) : ℤ := tapsQ15.getD (n + kPending - 2 * i) 0

/-- The first input in reach of output `n`. -/
def reachFrom (n : ℕ) : ℕ := if n > kPending then (n - kPending + 1) / 2 else 0

/-- The end of the inputs in reach of output `n`, of `received` ones. -/
def reachTo (received n : ℕ) : ℕ := min ((n + kPending) / 2 + 1) received

/-- **The sample at output `n` over a whole clip**: what both filters
compute there. -/
def sampleAt (inputs : List ℤ) (n : ℕ) : ℤ :=
  max (-32768) (min 32767 (roundQ15
    ((∑ i ∈ Ico (reachFrom n) (reachTo inputs.length n), tapOf n i * inputs.getD i 0) * 2)))

theorem foldl_add_eq_sum {ι : Type} (f : ι → ℤ) (l : List ι) (a : ℤ) :
    l.foldl (fun sum i => sum + f i) a = a + (l.map f).sum := by
  induction l generalizing a with
  | nil => simp
  | cons i l ih =>
    rw [List.foldl_cons, ih, List.map_cons, List.sum_cons]
    ring

theorem sum_range' (f : ℕ → ℤ) (a b : ℕ) :
    ((List.range' a (b - a)).map f).sum = ∑ i ∈ Ico a b, f i := by
  rw [Nat.Ico_eq_range']
  rfl

/-- **The output**, where the ring holds what it reads. -/
theorem output_eq_sampleAt {r : TelephonyResampler} {inputs : List ℤ} {n : ℕ}
    (hlen : r.received = inputs.length)
    (hring : ∀ i, reachFrom n ≤ i → i < reachTo r.received n →
      r.history.getD (i % kHistory) 0 = inputs.getD i 0) :
    r.output n = sampleAt inputs n := by
  have hsum : (List.range' (reachFrom n) (reachTo r.received n - reachFrom n)).foldl
      (fun sum input => sum + tapsQ15.getD (n + kPending - 2 * input) 0 *
        r.history.getD (input % kHistory) 0) 0 =
      ∑ i ∈ Ico (reachFrom n) (reachTo inputs.length n), tapOf n i * inputs.getD i 0 := by
    rw [foldl_add_eq_sum, zero_add, sum_range', ← hlen]
    refine Finset.sum_congr rfl fun i hi => ?_
    obtain ⟨hfrom, hto⟩ := Finset.mem_Ico.1 hi
    rw [hring i hfrom hto]
    rfl
  change max (-32768) (min 32767 (roundQ15 (List.foldl _ 0 (List.range' (reachFrom n)
    (reachTo r.received n - reachFrom n)) * 2))) = _
  rw [hsum]
  rfl

/-- The runtime's table is the reference's. -/
theorem tapsQ15_eq : tapsQ15 = CandidateAudio.firTapsQ15 := rfl

theorem clamp16_eq (value : ℤ) : CandidateAudio.clamp16 value = max (-32768) (min 32767 value) := by
  unfold CandidateAudio.clamp16
  omega

/-- The taps by their indices. -/
theorem zipIdx_firTapsQ15 : CandidateAudio.firTapsQ15.zipIdx =
    (List.range kTaps).map fun k => (tapsQ15.getD k 0, k) := by
  decide

/-- What the reference adds at tap `k`. -/
def referenceTerm (samples : List ℤ) (n k : ℕ) : ℤ :=
  if k ≤ n + kPending ∧ n + kPending - k < 2 * samples.length ∧ (n + kPending - k) % 2 = 0 then
    tapsQ15.getD k 0 * samples.getD ((n + kPending - k) / 2) 0
  else 0

theorem accumulate_eq_sum_range (samples : List ℤ) (n : ℕ) :
    CandidateAudio.accumulate samples 2 n = ∑ k ∈ range kTaps, referenceTerm samples n k := by
  have hterm : ∀ (sum : ℤ) (k : ℕ),
      (if ((n + CandidateAudio.firDelay : ℕ) : ℤ) - (k : ℤ) < 0 ∨
          ((n + CandidateAudio.firDelay : ℕ) : ℤ) - (k : ℤ) ≥ ((samples.length * 2 : ℕ) : ℤ) ∨
          (((n + CandidateAudio.firDelay : ℕ) : ℤ) - (k : ℤ)) % ((2 : ℕ) : ℤ) ≠ 0 then sum
        else sum + tapsQ15.getD k 0 * samples.getD
          ((((n + CandidateAudio.firDelay : ℕ) : ℤ) - (k : ℤ)).toNat / 2) 0) =
      sum + referenceTerm samples n k := by
    intro sum k
    have hdelay : CandidateAudio.firDelay = kPending := rfl
    rw [hdelay, referenceTerm]
    by_cases hk : k ≤ n + kPending ∧ n + kPending - k < 2 * samples.length ∧
        (n + kPending - k) % 2 = 0
    · rw [if_pos hk, if_neg (by omega)]
      have hindex : (((n + kPending : ℕ) : ℤ) - (k : ℤ)).toNat = n + kPending - k := by omega
      rw [hindex]
    · rw [if_neg hk, if_pos (by omega), add_zero]
  unfold CandidateAudio.accumulate
  rw [zipIdx_firTapsQ15, List.foldl_map]
  simp only [hterm]
  rw [foldl_add_eq_sum, zero_add]
  rfl

/-- **The reference's sum** runs over the inputs in reach. -/
theorem accumulate_eq_sum_reach (samples : List ℤ) (n : ℕ) :
    CandidateAudio.accumulate samples 2 n =
      ∑ i ∈ Ico (reachFrom n) (reachTo samples.length n), tapOf n i * samples.getD i 0 := by
  have hpending : kPending = 31 := rfl
  have htaps : kTaps = 63 := rfl
  rw [accumulate_eq_sum_range]
  unfold referenceTerm
  rw [← Finset.sum_filter]
  refine Finset.sum_nbij' (fun k => (n + kPending - k) / 2) (fun i => n + kPending - 2 * i)
    ?_ ?_ ?_ ?_ ?_
  · intro k hk
    simp only [mem_filter, mem_range, htaps, hpending] at hk
    simp only [mem_Ico, reachFrom, reachTo, hpending]
    split <;> omega
  · intro i hi
    simp only [mem_Ico, reachFrom, reachTo, hpending] at hi
    simp only [mem_filter, mem_range, htaps, hpending]
    split at hi <;> omega
  · intro k hk
    simp only [mem_filter, mem_range, htaps, hpending] at hk ⊢
    omega
  · intro i hi
    simp only [mem_Ico, reachFrom, reachTo, hpending] at hi ⊢
    omega
  · intro k hk
    simp only [mem_filter, mem_range, htaps, hpending] at hk
    have hback : n + kPending - 2 * ((n + kPending - k) / 2) = k := by
      rw [hpending]
      omega
    rw [tapOf, hback]

/-- **The reference at output `n`.** -/
theorem interpolate2x_eq_map (samples : List ℤ) :
    CandidateAudio.interpolate2x samples =
      (List.range (2 * samples.length)).map (sampleAt samples) := by
  have hcount : (samples.length * 2 + 1 - 1) / 1 = 2 * samples.length := by omega
  unfold CandidateAudio.interpolate2x CandidateAudio.fir
  dsimp only
  rw [hcount, ← List.range_eq_range']
  refine List.map_congr_left fun n _ => ?_
  rw [clamp16_eq, accumulate_eq_sum_reach]
  rfl

theorem length_interpolate2x (samples : List ℤ) :
    (CandidateAudio.interpolate2x samples).length = 2 * samples.length := by
  rw [interpolate2x_eq_map, List.length_map, List.length_range]

theorem interpolate2x_getElem? {samples : List ℤ} {n : ℕ} (hn : n < 2 * samples.length) :
    (CandidateAudio.interpolate2x samples)[n]? = some (sampleAt samples n) := by
  rw [interpolate2x_eq_map, List.getElem?_map, List.getElem?_range hn]
  rfl

/-- **Later inputs out of reach** do not change a sample. -/
theorem sampleAt_append {inputs later : List ℤ} {n : ℕ} (hn : n + kPending < 2 * inputs.length) :
    sampleAt (inputs ++ later) n = sampleAt inputs n := by
  have hreach : reachTo (inputs ++ later).length n = reachTo inputs.length n := by
    unfold reachTo
    rw [List.length_append]
    omega
  unfold sampleAt
  rw [hreach]
  have hsum : ∑ i ∈ Ico (reachFrom n) (reachTo inputs.length n),
        tapOf n i * (inputs ++ later).getD i 0 =
      ∑ i ∈ Ico (reachFrom n) (reachTo inputs.length n), tapOf n i * inputs.getD i 0 := by
    refine Finset.sum_congr rfl fun i hi => ?_
    have hlt : i < inputs.length := by
      have hto := (Finset.mem_Ico.1 hi).2
      unfold reachTo at hto
      omega
    rw [List.getD_eq_getElem?_getD, List.getD_eq_getElem?_getD, List.getElem?_append_left hlt]
  rw [hsum]

/-! ## The stream -/

/-- One call on the resampler. -/
inductive Call
  | push (mulaw : List UInt8)
  | flush

/-- A resampler, the inputs it was given, decoded, and what it emitted. -/
structure Stream where
  resampler : TelephonyResampler := {}
  inputs : List ℤ := []
  out : List ℤ := []

/-- One more call. -/
def Stream.call (s : Stream) : Call → Stream
  | .push mulaw =>
    let (r, out) := s.resampler.push mulaw
    ⟨r, s.inputs ++ mulaw.map mulawToLinear, s.out ++ out⟩
  | .flush =>
    let (r, out) := s.resampler.flush
    ⟨r, s.inputs, s.out ++ out⟩

/-- **A new resampler under a sequence of calls.** -/
def stream (calls : List Call) : Stream := calls.foldl Stream.call {}

/-- The inputs output `n` reads are in the ring, each at its cell. -/
def Reads (r : TelephonyResampler) (inputs : List ℤ) (n : ℕ) : Prop :=
  ∀ i, reachFrom n ≤ i → i < reachTo r.received n →
    r.history.getD (i % kHistory) 0 = inputs.getD i 0

/-- **The stream so far**: the ring holds the last inputs, and every
output no input to come can reach was emitted, none beyond the inputs. -/
structure Stream.Sound (s : Stream) : Prop where
  received : s.resampler.received = s.inputs.length
  ring : RingHolds kHistory 0 s.resampler.history s.inputs
  emitted : s.resampler.emitted = s.out.length
  upTo : s.resampler.emitted ≤ 2 * s.resampler.received
  ready : 2 * s.resampler.received ≤ s.resampler.emitted + kPending

theorem sound_start : Stream.Sound {} :=
  ⟨rfl, ringHolds_nil (by decide), rfl, Nat.le_refl _, by decide⟩

/-- Emitting computes the next outputs in order and changes nothing else. -/
theorem emit_eq (r : TelephonyResampler) (count : ℕ) :
    r.emit count =
      ({ r with emitted := r.emitted + count }, (List.range' r.emitted count).map r.output) := by
  induction count generalizing r with
  | zero => simp [emit]
  | succ count ih =>
    have hsame : ({ r with emitted := r.emitted + 1 } : TelephonyResampler).output = r.output := rfl
    rw [emit]
    simp only [ih, hsame, List.range'_succ, List.map_cons]
    rw [Nat.add_assoc, Nat.add_comm 1 count]

/-- **What an output reads is in the ring**, from the output before the
filter's look-ahead of the input just taken on. -/
theorem reads_of_ring {r : TelephonyResampler} {inputs : List ℤ} {n : ℕ}
    (hlen : r.received = inputs.length) (hring : RingHolds kHistory 0 r.history inputs)
    (hn : 2 * r.received ≤ n + kPending + 2) : Reads r inputs n := by
  have hpending : kPending = 31 := rfl
  have hhistory : kHistory = 32 := rfl
  intro i hfrom hto
  refine hring.entry i ?_ ?_
  · unfold reachTo at hto
    omega
  · unfold reachFrom at hfrom
    split at hfrom <;> omega

/-- What the calls from `s` to `s'` emitted: each new output is the sample
at its place over the inputs so far, read from the ring. -/
def Emits (s s' : Stream) (p : ℕ → Prop) : Prop :=
  ∀ n, s.out.length ≤ n → n < s'.out.length →
    s'.out[n]? = some (sampleAt s'.inputs n) ∧ p n

/-- A stream whose resampler emits its next `count` outputs. -/
theorem Stream.Sound.emit {s : Stream} (hs : s.Sound) (r : TelephonyResampler) (inputs : List ℤ)
    (count : ℕ) (hlen : r.received = inputs.length)
    (hring : RingHolds kHistory 0 r.history inputs) (hemitted : r.emitted = s.resampler.emitted)
    (hold : 2 * r.received ≤ r.emitted + kPending + 2) (hupTo : r.emitted + count ≤ 2 * r.received)
    (hready : 2 * r.received ≤ r.emitted + count + kPending) :
    let s' : Stream := ⟨(r.emit count).1, inputs, s.out ++ (r.emit count).2⟩
    s'.Sound ∧ s'.out.length = r.emitted + count ∧
      Emits s s' fun n => n < r.emitted + count ∧ Reads s'.resampler s'.inputs n := by
  have hstart : s.out.length = r.emitted := by rw [hemitted, hs.emitted]
  simp only [emit_eq]
  have hout : (s.out ++ (List.range' r.emitted count).map r.output).length = r.emitted + count := by
    simp [hstart]
  refine ⟨⟨hlen, hring, hout.symm, hupTo, hready⟩, hout, ?_⟩
  intro n hn hlt
  dsimp only at hlt ⊢
  rw [hout] at hlt
  have hreads : Reads r inputs n := reads_of_ring hlen hring (by omega)
  refine ⟨?_, hlt, hreads⟩
  rw [List.getElem?_append_right hn, hstart, List.getElem?_map,
    List.getElem?_range' (by omega), Option.map_some]
  have hindex : r.emitted + 1 * (n - r.emitted) = n := by omega
  rw [hindex, output_eq_sampleAt hlen hreads]

/-- The resampler with one more input in its ring. -/
def store (r : TelephonyResampler) (sample : ℤ) : TelephonyResampler :=
  { r with
    history := r.history.set (r.received % kHistory) sample
    received := r.received + 1 }

/-- **One input**: the outputs whose last input it is. -/
theorem Stream.Sound.push_singleton {s : Stream} (hs : s.Sound) (code : UInt8) :
    (s.call (.push [code])).Sound ∧
      Emits s (s.call (.push [code])) fun n =>
        n + kPending < 2 * (s.call (.push [code])).inputs.length ∧
          Reads (s.call (.push [code])).resampler (s.call (.push [code])).inputs n := by
  have hpending : kPending = 31 := rfl
  have hlen := hs.received
  have hupTo := hs.upTo
  have hready := hs.ready
  have hring : RingHolds kHistory 0 (store s.resampler (mulawToLinear code)).history
      (s.inputs ++ [mulawToLinear code]) := by
    unfold store
    rw [hlen]
    exact hs.ring.push (by decide) _
  have hcall : s.call (.push [code]) =
      ⟨((store s.resampler (mulawToLinear code)).emit
          (2 * (s.resampler.received + 1) - (s.resampler.emitted + kPending))).1,
        s.inputs ++ [mulawToLinear code],
        s.out ++ ((store s.resampler (mulawToLinear code)).emit
          (2 * (s.resampler.received + 1) - (s.resampler.emitted + kPending))).2⟩ := by
    simp [Stream.call, push, take, store]
  obtain ⟨hsound, -, hemits⟩ := hs.emit (store s.resampler (mulawToLinear code))
    (s.inputs ++ [mulawToLinear code])
    (2 * (s.resampler.received + 1) - (s.resampler.emitted + kPending))
    (by simp [store, hlen]) hring rfl (by simp only [store]; omega) (by simp only [store]; omega)
    (by simp only [store]; omega)
  rw [hcall]
  refine ⟨hsound, fun n hn hlt => ?_⟩
  obtain ⟨hsample, hle, hreads⟩ := hemits n hn hlt
  refine ⟨hsample, ?_, hreads⟩
  have hstart := hs.emitted
  simp only [store] at hle
  simp only [List.length_append, List.length_singleton]
  omega

theorem Stream.call_push_cons (s : Stream) (code : UInt8) (rest : List UInt8) :
    s.call (.push (code :: rest)) = (s.call (.push [code])).call (.push rest) := by
  simp [Stream.call, push]

/-- How bytes are split into pushes does not matter. -/
theorem Stream.call_push_append (s : Stream) (mulaw rest : List UInt8) :
    s.call (.push (mulaw ++ rest)) = (s.call (.push mulaw)).call (.push rest) := by
  induction mulaw generalizing s with
  | nil => simp [Stream.call, push]
  | cons code mulaw ih =>
    rw [List.cons_append, Stream.call_push_cons, ih, ← Stream.call_push_cons]

/-- Calls only add to what was emitted and to what was given. -/
theorem Stream.call_grows (s : Stream) (c : Call) :
    s.out <+: (s.call c).out ∧ s.inputs <+: (s.call c).inputs := by
  cases c with
  | push mulaw => exact ⟨List.prefix_append _ _, List.prefix_append _ _⟩
  | flush => exact ⟨List.prefix_append _ _, List.prefix_rfl⟩

/-- A sample stays where it was emitted. -/
theorem getElem?_of_isPrefix_lt {l l' : List ℤ} (h : l <+: l') {n : ℕ} (hn : n < l.length) :
    l'[n]? = l[n]? := by
  obtain ⟨rest, rfl⟩ := h
  exact List.getElem?_append_left hn

/-- A sample out of reach of later inputs is the sample over all of them. -/
theorem sampleAt_of_isPrefix_lt {inputs inputs' : List ℤ} (h : inputs <+: inputs') {n : ℕ}
    (hn : n + kPending < 2 * inputs.length) : sampleAt inputs' n = sampleAt inputs n := by
  obtain ⟨later, rfl⟩ := h
  exact sampleAt_append hn

/-- **A push**: outputs whose inputs have all arrived. -/
theorem Stream.Sound.push {s : Stream} (hs : s.Sound) (mulaw : List UInt8) :
    (s.call (.push mulaw)).Sound ∧
      Emits s (s.call (.push mulaw)) fun n =>
        n + kPending < 2 * (s.call (.push mulaw)).inputs.length := by
  induction mulaw generalizing s with
  | nil =>
    have hcall : s.call (.push []) = s := by simp [Stream.call, TelephonyResampler.push]
    rw [hcall]
    exact ⟨hs, fun n hn hlt => absurd hlt (by omega)⟩
  | cons code rest ih =>
    obtain ⟨hone, hemits⟩ := hs.push_singleton code
    obtain ⟨hsound, hlater⟩ := ih hone
    rw [Stream.call_push_cons]
    refine ⟨hsound, fun n hn hlt => ?_⟩
    obtain ⟨hout, hinputs⟩ := (s.call (.push [code])).call_grows (.push rest)
    rcases Nat.lt_or_ge n (s.call (.push [code])).out.length with hfirst | hafter
    · -- Emitted by the first input, and out of reach of the others.
      obtain ⟨hsample, hreach, -⟩ := hemits n hn hfirst
      rw [getElem?_of_isPrefix_lt hout hfirst, sampleAt_of_isPrefix_lt hinputs hreach]
      exact ⟨hsample, by have := hinputs.length_le; omega⟩
    · exact hlater n hafter hlt

/-- **A flush**: every output the inputs so far give. -/
theorem Stream.Sound.flush {s : Stream} (hs : s.Sound) :
    (s.call .flush).Sound ∧ (s.call .flush).out.length = 2 * s.inputs.length ∧
      Emits s (s.call .flush) fun n => n < 2 * s.inputs.length ∧
        Reads (s.call .flush).resampler (s.call .flush).inputs n := by
  have hlen := hs.received
  have hupTo := hs.upTo
  have hready := hs.ready
  obtain ⟨hsound, hout, hemits⟩ := hs.emit s.resampler s.inputs
    (2 * s.resampler.received - s.resampler.emitted) hlen hs.ring rfl (by omega) (by omega) (by omega)
  have hcall : s.call .flush =
      ⟨(s.resampler.emit (2 * s.resampler.received - s.resampler.emitted)).1, s.inputs,
        s.out ++ (s.resampler.emit (2 * s.resampler.received - s.resampler.emitted)).2⟩ := rfl
  have hcount : s.resampler.emitted + (2 * s.resampler.received - s.resampler.emitted) =
      2 * s.inputs.length := by omega
  rw [hcall]
  rw [hcount] at hout hemits
  exact ⟨hsound, hout, hemits⟩

theorem Stream.Sound.call {s : Stream} (hs : s.Sound) (c : Call) : (s.call c).Sound := by
  cases c with
  | push mulaw => exact (hs.push mulaw).1
  | flush => exact hs.flush.1

theorem stream_append (calls : List Call) (c : Call) :
    stream (calls ++ [c]) = (stream calls).call c := by
  simp [stream]

theorem sound_stream (calls : List Call) : (stream calls).Sound := by
  induction calls using List.reverseRecOn with
  | nil => exact sound_start
  | append_singleton calls c ih =>
    rw [stream_append]
    exact ih.call c

theorem stream_grows (calls later : List Call) :
    (stream calls).out <+: (stream (calls ++ later)).out ∧
      (stream calls).inputs <+: (stream (calls ++ later)).inputs := by
  induction later using List.reverseRecOn with
  | nil => simp
  | append_singleton later c ih =>
    rw [← List.append_assoc, stream_append]
    obtain ⟨hout, hinputs⟩ := (stream (calls ++ later)).call_grows c
    exact ⟨ih.1.trans hout, ih.2.trans hinputs⟩

/-- Every sample was emitted by one of the calls. -/
theorem exists_call_of_lt (calls : List Call) {n : ℕ} (hn : n < (stream calls).out.length) :
    ∃ before c after, calls = before ++ c :: after ∧ (stream before).out.length ≤ n ∧
      n < (stream (before ++ [c])).out.length := by
  induction calls using List.reverseRecOn with
  | nil => simp [stream] at hn
  | append_singleton calls c ih =>
    rcases Nat.lt_or_ge n (stream calls).out.length with hlt | hge
    · obtain ⟨before, c', after, rfl, hfrom, hto⟩ := ih hlt
      exact ⟨before, c', after ++ [c], by simp, hfrom, hto⟩
    · exact ⟨calls, c, [], rfl, hge, hn⟩

/-- **The stream is the reference.** However the input is split into
pushes and wherever it is flushed: a flush leaves two outputs for each
input; each output is the reference's over the whole decoded input,
except one a flush emitted within the look-ahead of its end, which is the
reference's over the inputs before the flush; every output was emitted by
one of the calls; and whenever an output was computed, the ring held each
input it read. -/
theorem stream_eq_interpolate2x (calls : List Call) :
    (∀ before after, calls = before ++ .flush :: after →
      (stream (before ++ [.flush])).out.length = 2 * (stream before).inputs.length) ∧
    (∀ before c after, calls = before ++ c :: after →
      ∀ n, (stream before).out.length ≤ n → n < (stream (before ++ [c])).out.length →
        (stream calls).out[n]? = match c with
          | .push _ => (CandidateAudio.interpolate2x (stream calls).inputs)[n]?
          | .flush =>
            if n + 31 ≥ 2 * (stream before).inputs.length then
              (CandidateAudio.interpolate2x (stream before).inputs)[n]?
            else (CandidateAudio.interpolate2x (stream calls).inputs)[n]?) ∧
    (∀ n < (stream calls).out.length, ∃ before c after, calls = before ++ c :: after ∧
      (stream before).out.length ≤ n ∧ n < (stream (before ++ [c])).out.length) ∧
    (∀ before after, calls = before ++ .flush :: after →
      ∀ n, (stream before).out.length ≤ n → n < (stream (before ++ [.flush])).out.length →
        Reads (stream (before ++ [.flush])).resampler (stream before).inputs n) ∧
    (∀ before mulaw code later after, calls = before ++ .push (mulaw ++ code :: later) :: after →
      let earlier := stream (before ++ [.push mulaw])
      let taken := stream (before ++ [.push (mulaw ++ [code])])
      ∀ n, earlier.out.length ≤ n → n < taken.out.length →
        Reads taken.resampler taken.inputs n) := by
  refine ⟨?_, ?_, fun n hn => exists_call_of_lt calls hn, ?_, ?_⟩
  · intro before after _
    rw [stream_append]
    exact (sound_stream before).flush.2.1
  · intro before c after hcalls n hfrom hto
    have hsplit : calls = (before ++ [c]) ++ after := by simp [hcalls]
    obtain ⟨hout, hinputs⟩ := stream_grows (before ++ [c]) after
    rw [← hsplit] at hout hinputs
    rw [getElem?_of_isPrefix_lt hout hto]
    rw [stream_append] at hto hinputs ⊢
    -- An output out of reach of later inputs, against one within the look-ahead.
    have hwhole : ∀ s : Stream, s.inputs <+: (stream calls).inputs →
        n + kPending < 2 * s.inputs.length →
        (CandidateAudio.interpolate2x (stream calls).inputs)[n]? = some (sampleAt s.inputs n) := by
      intro s hs hreach
      rw [interpolate2x_getElem? (by have := hs.length_le; omega), sampleAt_of_isPrefix_lt hs hreach]
    cases c with
    | push mulaw =>
      obtain ⟨hsample, hreach⟩ := ((sound_stream before).push mulaw).2 n hfrom hto
      dsimp only
      rw [hsample, hwhole _ hinputs hreach]
    | flush =>
      obtain ⟨hsample, hlt, -⟩ := (sound_stream before).flush.2.2 n hfrom hto
      have hpending : kPending = 31 := rfl
      have hsame : ((stream before).call .flush).inputs = (stream before).inputs := rfl
      rw [hsame] at hsample hinputs
      dsimp only
      rw [hsample]
      split
      · rw [interpolate2x_getElem? hlt]
      · rw [hwhole _ hinputs (by omega)]
  · intro before after _ n hfrom hto
    rw [stream_append] at hto ⊢
    exact ((sound_stream before).flush.2.2 n hfrom hto).2.2
  · intro before mulaw code later after _ earlier taken n hfrom hto
    have htaken : taken = earlier.call (.push [code]) := by
      change stream (before ++ [.push (mulaw ++ [code])]) =
        (stream (before ++ [.push mulaw])).call (.push [code])
      rw [stream_append, stream_append, Stream.call_push_append]
    rw [htaken] at hto ⊢
    exact (((sound_stream _).push_singleton code).2 n hfrom hto).2.2

end TelephonyResampler

end Serving

end Tensorplate
