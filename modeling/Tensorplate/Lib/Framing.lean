import Mathlib.Algebra.GroupWithZero.Nat
import Mathlib.Data.List.Basic
import Mathlib.Tactic.Common

/-!
# Frames on a stream of bytes

A code puts a frame on the wire as some bytes, and a scanner says of a
buffer whether a frame stands at its front, more bytes have to come, or
none can come of it. A code delimits its frames when the scanner finds each
of them at its own length, whatever follows it, and asks for more while only
a part of one is there. Then a reader that keeps a buffer reads the frames
that were written, in order, however the stream is cut on its way.
-/

namespace Tensorplate

namespace Lib

namespace Framing

variable {β φ ψ ε : Type*}

/-- What stands at the front of a buffer. -/
inductive Scan (ψ ε : Type*)
  | frame (value : ψ) (size : ℕ)
  | more
  | bad (error : ε)

/-- **A code that delimits its frames**, of those that are well formed.
`view` is what is read of a frame, if it is one the reader takes. -/
structure Delimits (formed : φ → Prop) (encode : φ → List β) (view : φ → Option ψ)
    (scan : List β → Scan ψ ε) : Prop where
  whole : ∀ {f v} rest, formed f → view f = some v →
    scan (encode f ++ rest) = .frame v (encode f).length
  fault : ∀ {f} rest, formed f → view f = none → ∃ e, scan (encode f ++ rest) = .bad e
  cut : ∀ {f buf}, formed f → buf <+: encode f → buf ≠ encode f → scan buf = .more
  empty : scan [] = .more

/-- The bytes of frames written one after another. -/
def stream (encode : φ → List β) (fs : List φ) : List β := fs.flatMap encode

@[simp] theorem stream_nil (encode : φ → List β) : stream encode [] = [] := rfl

@[simp] theorem stream_cons (encode : φ → List β) (f : φ) (fs : List φ) :
    stream encode (f :: fs) = encode f ++ stream encode fs := rfl

theorem stream_append (encode : φ → List β) (fs gs : List φ) :
    stream encode (fs ++ gs) = stream encode fs ++ stream encode gs := List.flatMap_append

variable {formed : φ → Prop} {encode : φ → List β} {view : φ → Option ψ} {scan : List β → Scan ψ ε} {fs : List φ}
  {buf rest : List β}

/-- **What a scanner finds at the front of a part of the stream**: too
little of the next frame, that frame, or a fault where the reader does not
take it. -/
theorem Delimits.front (h : Delimits formed encode view scan) (hformed : ∀ f ∈ fs, formed f)
    (hbuf : buf <+: stream encode fs) :
    (scan buf = .more ∧ ∀ f ∈ fs.head?, buf.length < (encode f).length) ∨
      ∃ f later, fs = f :: later ∧ encode f <+: buf ∧
        ((∃ v, view f = some v ∧ scan buf = .frame v (encode f).length) ∨
          (view f = none ∧ ∃ e, scan buf = .bad e)) := by
  rcases fs with - | ⟨f, later⟩
  · left
    rw [stream_nil, List.prefix_nil] at hbuf
    rw [hbuf]
    exact ⟨h.empty, fun f hf => absurd hf (by simp)⟩
  have hf := hformed f List.mem_cons_self
  rw [stream_cons] at hbuf
  have hfront : encode f <+: encode f ++ stream encode later := List.prefix_append _ _
  rcases Nat.lt_or_ge buf.length (encode f).length with hlt | hge
  · left
    have hpart : buf <+: encode f := List.prefix_of_prefix_length_le hbuf hfront (Nat.le_of_lt hlt)
    refine ⟨h.cut hf hpart fun heq => ?_, fun g hg => ?_⟩
    · rw [heq] at hlt
      exact absurd hlt (Nat.lt_irrefl _)
    · obtain rfl := Option.some.inj hg
      exact hlt
  · right
    have hpart : encode f <+: buf := List.prefix_of_prefix_length_le hfront hbuf hge
    obtain ⟨tail, rfl⟩ := hpart
    refine ⟨f, later, rfl, List.prefix_append _ _, ?_⟩
    rcases hv : view f with - | v
    · exact .inr ⟨rfl, h.fault tail hf hv⟩
    · exact .inl ⟨v, rfl, h.whole tail hf hv⟩

/-! ## Readers -/

/-- **What a reader has still to read**: of the frames written it read some,
and its buffer with what is on the way begins with the bytes of the rest;
`lost` never arrives. -/
def Feeds (encode : φ → List β) (sent : List φ) (read : ℕ) (buf way lost : List β) : Prop :=
  read ≤ sent.length ∧ buf ++ way ++ lost = stream encode (sent.drop read)

variable {sent : List φ} {read : ℕ} {way lost : List β}

theorem feeds_nil (encode : φ → List β) : Feeds encode [] 0 [] [] [] := ⟨Nat.le_refl _, rfl⟩

theorem Feeds.begins (h : Feeds encode sent read buf way lost) :
    buf <+: stream encode (sent.drop read) :=
  ⟨way ++ lost, by rw [← List.append_assoc]; exact h.2⟩

/-- Another frame is written. -/
theorem Feeds.writes (h : Feeds encode sent read buf way lost) (f : φ) :
    Feeds encode (sent ++ [f]) read buf way (lost ++ encode f) := by
  refine ⟨?_, ?_⟩
  · rw [List.length_append]
    exact Nat.le_trans h.1 (Nat.le_add_right _ _)
  · rw [List.drop_append_of_le_length h.1, stream_append, ← h.2, stream_cons, stream_nil,
      List.append_nil, List.append_assoc, List.append_assoc, List.append_assoc]

/-- Bytes move on. -/
theorem Feeds.moves (h : Feeds encode sent read buf way lost) {buf' way' lost' : List β}
    (hsame : buf' ++ way' ++ lost' = buf ++ way ++ lost) : Feeds encode sent read buf' way' lost' :=
  ⟨h.1, hsame.trans h.2⟩

/-- The first frame is read out of the buffer. -/
theorem Feeds.reads (h : Feeds encode sent read buf way lost) {f : φ} {later : List φ}
    (hnext : sent.drop read = f :: later) (hfront : encode f <+: buf) :
    Feeds encode sent (read + 1) (buf.drop (encode f).length) way lost := by
  have hlt : read < sent.length := by
    by_contra hge
    rw [List.drop_eq_nil_of_le (Nat.le_of_not_lt hge)] at hnext
    exact absurd hnext (by simp)
  refine ⟨hlt, ?_⟩
  obtain ⟨tail, rfl⟩ := hfront
  have heq := h.2
  rw [hnext, stream_cons, List.append_assoc, List.append_assoc] at heq
  have htail := List.append_cancel_left heq
  rw [List.drop_left, ← List.append_assoc] at *
  rw [htail, ← List.drop_drop, hnext]
  rfl

end Framing

end Lib

end Tensorplate
