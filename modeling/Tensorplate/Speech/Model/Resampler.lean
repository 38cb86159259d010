import Mathlib.Data.Int.Notation
import Tensorplate.Lib.Bytes

/-!
# The telephony resampler

`TelephonyResampler`: 8 kHz mu-law input onto the 16 kHz internal
timeline, through a 63-tap filter. A sample is a 16-bit signed integer.
-/

namespace Tensorplate

namespace Serving

open Lib

namespace TelephonyResampler

def kTaps : ℕ := 63

/-- Output samples that wait for later input. -/
def kPending : ℕ := (kTaps - 1) / 2

def kHistory : ℕ := 32

/-- `kTapsQ15`. -/
def tapsQ15 : List ℤ :=
  [0, 0, -1, 1, 6, -1, -16, -3, 31, 16, -52, -46, 74,
   100, -88, -186, 79, 307, -24, -462, -105, 644, 348, -837, -771, 1021,
   1518, -1174, -3112, 1275, 10305, 15074, 10305, 1275, -3112, -1174, 1518, 1021, -771,
   -837, 348, 644, -105, -462, -24, 307, 79, -186, -88, 100, 74, -46,
   -52, 16, 31, -3, -16, -1, 6, 1, -1, 0, 0]

def kMulawBias : ℕ := 0x84

/-- `mulaw_to_linear`, by the rule `mulaw_table` fills its table with. -/
def mulawToLinear (code : UInt8) : ℤ :=
  let value := 255 - code.toNat
  let magnitude : ℤ :=
    (((value % 16 * 8 + kMulawBias) * 2 ^ (value / 16 % 8) : ℕ) : ℤ) - (kMulawBias : ℤ)
  if value ≥ 128 then -magnitude else magnitude

/-- `round_q15`: half away from zero. -/
def roundQ15 (accumulator : ℤ) : ℤ :=
  if accumulator ≥ 0 then (accumulator + 16384) / 32768 else -((-accumulator + 16384) / 32768)

end TelephonyResampler

/-- `TelephonyResampler`. `history` is the ring of the last inputs. -/
structure TelephonyResampler where
  history : List ℤ := List.replicate TelephonyResampler.kHistory 0
  received : ℕ := 0
  emitted : ℕ := 0
  deriving DecidableEq, Repr

namespace TelephonyResampler

/-- `output`. -/
def output (r : TelephonyResampler) (n : ℕ) : ℤ :=
  -- Output n reads the inputs i with |2i - n| <= kPending, none past those received.
  let first := if n > kPending then (n - kPending + 1) / 2 else 0
  let last := min ((n + kPending) / 2 + 1) r.received
  let accumulator := (List.range' first (last - first)).foldl (fun sum input =>
    sum + tapsQ15.getD (n + kPending - 2 * input) 0 * r.history.getD (input % kHistory) 0) 0
  max (-32768) (min 32767 (roundQ15 (accumulator * 2)))

/-- Emits the next `count` outputs. -/
def emit (r : TelephonyResampler) : ℕ → TelephonyResampler × List ℤ
  | 0 => (r, [])
  | count + 1 =>
    let sample := r.output r.emitted
    let (r, rest) := { r with emitted := r.emitted + 1 }.emit count
    (r, sample :: rest)

/-- `take`: one input, and every output whose inputs have all arrived. -/
def take (r : TelephonyResampler) (sample : ℤ) : TelephonyResampler × List ℤ :=
  let r := { r with
    history := r.history.set (r.received % kHistory) sample
    received := r.received + 1 }
  r.emit (2 * r.received - (r.emitted + kPending))

/-- `push`. -/
def push (r : TelephonyResampler) : List UInt8 → TelephonyResampler × List ℤ
  | [] => (r, [])
  | code :: rest =>
    let (r, out) := r.take (mulawToLinear code)
    let (r, later) := r.push rest
    (r, out ++ later)

/-- `flush`: the pending outputs as if the input ended here. -/
def flush (r : TelephonyResampler) : TelephonyResampler × List ℤ :=
  r.emit (2 * r.received - r.emitted)

end TelephonyResampler

/-! ## The reference

`tools/validation/candidate_audio.py`, which the runtime's filter is
pinned to. -/

namespace CandidateAudio

/-- `FIR_TAPS_Q15`. -/
def firTapsQ15 : List ℤ :=
  [0, 0, -1, 1, 6, -1, -16, -3, 31, 16, -52, -46, 74, 100, -88, -186, 79, 307, -24, -462, -105,
   644, 348, -837, -771, 1021, 1518, -1174, -3112, 1275, 10305, 15074, 10305, 1275, -3112, -1174,
   1518, 1021, -771, -837, 348, 644, -105, -462, -24, 307, 79, -186, -88, 100, 74, -46, -52, 16,
   31, -3, -16, -1, 6, 1, -1, 0, 0]

/-- `FIR_DELAY`. -/
def firDelay : ℕ := (63 - 1) / 2

/-- `clamp16`. -/
def clamp16 (value : ℤ) : ℤ :=
  if value < -32768 then -32768 else if value > 32767 then 32767 else value

/-- `_round_q15`. -/
def roundQ15 (accumulator : ℤ) : ℤ :=
  if accumulator ≥ 0 then (accumulator + 16384) / 32768 else -((-accumulator + 16384) / 32768)

/-- The accumulator of `_fir` at output `n`. -/
def accumulate (samples : List ℤ) (upsample n : ℕ) : ℤ :=
  firTapsQ15.zipIdx.foldl (fun accumulator (tap, k) =>
    let index : ℤ := ((n + firDelay : ℕ) : ℤ) - (k : ℤ)
    if index < 0 ∨ index ≥ ((samples.length * upsample : ℕ) : ℤ) ∨ index % (upsample : ℤ) ≠ 0 then
      accumulator
    else accumulator + tap * samples.getD (index.toNat / upsample) 0) 0

/-- `_fir`: the samples zero-stuffed by `upsample`, filtered, and every
`stride_out`-th output kept. -/
def fir (samples : List ℤ) (strideOut upsample : ℕ) : List ℤ :=
  let stuffedLen := samples.length * upsample
  (List.range' 0 ((stuffedLen + strideOut - 1) / strideOut) strideOut).map fun n =>
    clamp16 (roundQ15 (accumulate samples upsample n * (upsample : ℤ)))

/-- `interpolate_2x`. -/
def interpolate2x (samples : List ℤ) : List ℤ := fir samples 1 2

end CandidateAudio

/-- `as_internal`: samples as little-endian bytes. -/
def asInternal (samples : List ℤ) : Bytes :=
  Bytes.ofList (samples.flatMap fun sample =>
    let bits := (sample % 65536).toNat
    [UInt8.ofNat (bits % 256), UInt8.ofNat (bits / 256)])

end Serving

end Tensorplate
