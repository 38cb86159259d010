import Tensorplate.Lib.Runs
import Tensorplate.Sidecar.Codec
import Tensorplate.Sidecar.Model.FrameIo

/-!
# Frames arrive as they were written

In both directions the bytes in a reader's buffer, those on their way and
those the writer has left are the frames that were written and not read yet,
one after another. A frame begins where the last one ended, so a reader
never loses its place: it reads the frames that were written, in order.
-/

namespace Tensorplate

namespace Sidecar

namespace Codec

open Lib Framing

variable {H : Type} {J : Json H}

/-! ## The pipe -/

theorem Pipe.write_eq {p p' : Pipe} {bytes : List UInt8} (h : p.write bytes = some p') :
    p.unsent = [] ∧ p' = { p with unsent := bytes } := by
  unfold Pipe.write at h
  split_ifs at h with hbusy
  obtain rfl := Option.some.inj h
  have hempty : p.closed = false ∧ p.unsent = [] := by simpa using hbusy
  exact ⟨hempty.2, rfl⟩

theorem Pipe.send_eq {p p' : Pipe} {count : ℕ} (h : p.send count = some p') :
    p'.way ++ p'.unsent = p.way ++ p.unsent := by
  unfold Pipe.send at h
  split_ifs at h
  obtain rfl := Option.some.inj h
  rw [List.append_assoc, List.take_append_drop]

theorem Pipe.fails_eq {p p' : Pipe} (h : p.fails = some p') :
    p'.way = p.way ∧ p'.unsent = p.unsent := by
  unfold Pipe.fails at h
  split_ifs at h
  obtain rfl := Option.some.inj h
  exact ⟨rfl, rfl⟩

theorem Pipe.recv_eq {p p' : Pipe} {count : ℕ} {chunk : List UInt8}
    (h : p.recv count = some (chunk, p')) :
    chunk ++ p'.way = p.way ∧ p'.unsent = p.unsent ∧ chunk.length = count := by
  unfold Pipe.recv at h
  split_ifs at h with hnone
  obtain ⟨rfl, rfl⟩ := Prod.mk.inj (Option.some.inj h)
  refine ⟨List.take_append_drop _ _, rfl, List.length_take_of_le ?_⟩
  have hle : count ≠ 0 ∧ count ≤ p.way.length := by simpa using hnone
  exact hle.2

/-- What the sidecar reads of a frame: the object its header is the text of. -/
def seen (J : Json H) (frame : SidecarFrame) : Option (Frame H) :=
  match J.loads frame.jsonHeader with
  | .ok (some header) => some ⟨header, frame.payload⟩
  | _ => none

/-- `decode_one` as a scanner of frames. -/
def scanOne (J : Json H) (buf : List UInt8) : Scan (Frame H) FrameFault :=
  match decodeOne J buf with
  | .ok (frame, size) => .frame frame size
  | .error (.incomplete _) => .more
  | .error fault => .bad fault

theorem seen_eq_some {frame : SidecarFrame} {f : Frame H} (h : seen J frame = some f) :
    J.loads frame.jsonHeader = .ok (some f.header) ∧ frame.payload = f.payload := by
  unfold seen at h
  split at h
  · rename_i header hloads
    obtain rfl := Option.some.inj h
    exact ⟨hloads, rfl⟩
  · exact absurd h (by simp)

theorem scanOne_ok {buf : List UInt8} {f : Frame H} {size : ℕ}
    (h : decodeOne J buf = .ok (f, size)) : scanOne J buf = .frame f size := by
  unfold scanOne
  rw [h]

theorem scanOne_incomplete {buf : List UInt8} {text : String}
    (h : decodeOne J buf = .error (.incomplete text)) : scanOne J buf = .more := by
  unfold scanOne
  rw [h]

theorem scanOne_error {buf : List UInt8} {text : String}
    (h : decodeOne J buf = .error (.error text)) : scanOne J buf = .bad (.error text) := by
  unfold scanOne
  rw [h]

theorem scanOne_more {buf : List UInt8} (h : (verdict buf).waits = true) :
    scanOne J buf = .more := by
  obtain ⟨text, htext⟩ := (decodeOne_eq J buf).2.1 h
  exact scanOne_incomplete htext

theorem scanOne_frame {buf : List UInt8} {frame : SidecarFrame} {size : ℕ} {f : Frame H}
    (hd : decodeFrame buf = .ok (frame, size)) (hv : seen J frame = some f) :
    scanOne J buf = .frame f size := by
  obtain ⟨hloads, hpayload⟩ := seen_eq_some hv
  exact scanOne_ok (decodeOne_ok_iff.2 ⟨frame, hd, hloads, hpayload⟩)

theorem scanOne_bad {buf : List UInt8} {frame : SidecarFrame} {size : ℕ}
    (hd : decodeFrame buf = .ok (frame, size)) (hv : seen J frame = none) :
    ∃ fault, scanOne J buf = .bad fault := by
  rcases hone : decodeOne J buf with fault | ⟨f, size'⟩
  · rcases fault with text | text
    · obtain ⟨e, he, -⟩ := decodeOne_incomplete_iff.1 ⟨text, hone⟩
      rw [hd] at he
      exact absurd he (by simp)
    · exact ⟨_, scanOne_error hone⟩
  · obtain ⟨frame', hframe, hloads, -⟩ := decodeOne_ok_iff.1 hone
    rw [hd] at hframe
    obtain ⟨rfl, -⟩ := Prod.mk.inj (Except.ok.inj hframe)
    unfold seen at hv
    rw [hloads] at hv
    exact absurd hv (by simp)

theorem waits_nil : (verdict []).waits = true := by
  unfold verdict
  rw [if_pos (show ([] : List UInt8).length < kFramePrefixBytes from Nat.succ_pos _)]
  rfl

theorem decodeFrame_frameBytes {frame : SidecarFrame} (henc : Encodable frame)
    (rest : List UInt8) :
    decodeFrame (frameBytes frame ++ rest) = .ok (frame, (frameBytes frame).length) :=
  decodeFrame_iff.2 ⟨henc, rfl, List.prefix_append _ _⟩

/-- **`decode_one` delimits the frames that can be encoded.** -/
theorem delimits_scanOne (J : Json H) :
    Delimits Encodable frameBytes (seen J) (scanOne J) where
  whole rest henc hv := scanOne_frame (decodeFrame_frameBytes henc rest) hv
  fault rest henc hv := scanOne_bad (decodeFrame_frameBytes henc rest) hv
  cut henc hpart hne := scanOne_more (verdict_cut henc hpart hne)
  empty := scanOne_more waits_nil

namespace Outbound

/-- What holds in every run. -/
structure Kept (J : Json H) (x : Outbound H) : Prop where
  feeds : Feeds frameBytes x.sent x.read.length x.readBuf x.pipe.way x.pipe.unsent
  formed : ∀ frame ∈ x.sent, Encodable frame
  read : x.read.map some = (x.sent.take x.read.length).map (seen J)
  stopped : x.stopped.isSome →
    ∃ frame, (x.sent.drop x.read.length).head? = some frame ∧ seen J frame = none

theorem kept_fresh (J : Json H) : Kept J {} :=
  ⟨feeds_nil _, fun _ h => absurd h List.not_mem_nil, rfl, fun h => absurd h (by simp)⟩

theorem Kept.writes {x x' : Outbound H} {frame : SidecarFrame} (h : Kept J x)
    (hs : x.writes frame = some x') : Kept J x' := by
  unfold Outbound.writes at hs
  split at hs
  · exact absurd hs (by simp)
  rename_i bytes henc
  obtain ⟨hok, rfl⟩ := encodeFrame_ok_iff.1 henc
  obtain ⟨pipe, hpipe, rfl⟩ := Option.map_eq_some_iff.1 hs
  obtain ⟨hunsent, rfl⟩ := Pipe.write_eq hpipe
  have hle := h.feeds.1
  have hfeeds := h.feeds.writes frame
  rw [hunsent, List.nil_append] at hfeeds
  refine ⟨hfeeds, fun f hf => ?_, ?_, fun hstop => ?_⟩
  · rcases List.mem_append.1 hf with hold | hnew
    · exact h.formed f hold
    · rw [List.mem_singleton.1 hnew]
      exact hok
  · rw [List.take_append_of_le_length hle]
    exact h.read
  · obtain ⟨f, hnext, hno⟩ := h.stopped hstop
    refine ⟨f, ?_, hno⟩
    rw [List.drop_append_of_le_length hle, List.head?_append, hnext]
    rfl

/-- What a turn of the sidecar's reader does. -/
theorem turns_cases {x x' : Outbound H} {count : ℕ} (hs : x.turns J count = some x') :
    x.stopped = none ∧
      ((∃ chunk pipe, scanOne J x.readBuf = .more ∧ x.pipe.recv count = some (chunk, pipe) ∧
          x' = { x with pipe := pipe, readBuf := x.readBuf ++ chunk }) ∨
        (∃ frame size, scanOne J x.readBuf = .frame frame size ∧
          x' = { x with readBuf := x.readBuf.drop size, read := x.read ++ [frame] }) ∨
        ∃ fault, scanOne J x.readBuf = .bad fault ∧ x' = { x with stopped := some fault }) := by
  unfold Outbound.turns at hs
  by_cases hstop : x.stopped.isSome = true
  · rw [if_pos hstop] at hs
    exact absurd hs (by simp)
  rw [if_neg hstop] at hs
  refine ⟨Option.not_isSome_iff_eq_none.1 hstop, ?_⟩
  rcases hone : decodeOne J x.readBuf with fault | ⟨frame, size⟩
  · rw [hone] at hs
    rcases fault with text | text
    · dsimp only at hs
      by_cases hmany : count > kReceive
      · rw [if_pos hmany] at hs
        exact absurd hs (by simp)
      rw [if_neg hmany] at hs
      obtain ⟨⟨chunk, pipe⟩, hrecv, heq⟩ := Option.map_eq_some_iff.1 hs
      exact .inl ⟨chunk, pipe, scanOne_incomplete hone, hrecv, heq.symm⟩
    · exact .inr (.inr ⟨_, scanOne_error hone, (Option.some.inj hs).symm⟩)
  · rw [hone] at hs
    exact .inr (.inl ⟨frame, size, scanOne_ok hone, (Option.some.inj hs).symm⟩)

/-- **A turn of the sidecar's reader** takes the next frame written, asks for
more, or stops at a frame it does not take. -/
theorem Kept.turns {x x' : Outbound H} {count : ℕ} (h : Kept J x)
    (hs : x.turns J count = some x') : Kept J x' := by
  have hformed : ∀ f ∈ x.sent.drop x.read.length, Encodable f :=
    fun f hf => h.formed f (List.drop_subset _ _ hf)
  have hfront := (delimits_scanOne J).front hformed h.feeds.begins
  obtain ⟨hgo, ⟨chunk, pipe, -, hrecv, rfl⟩ | ⟨frame, size, hscan, rfl⟩ | ⟨fault, hscan, rfl⟩⟩ :=
    turns_cases hs
  · obtain ⟨hway, hunsent, -⟩ := Pipe.recv_eq hrecv
    refine ⟨h.feeds.moves ?_, h.formed, h.read, h.stopped⟩
    dsimp only
    rw [hunsent, ← hway, List.append_assoc x.readBuf]
  · rw [hscan] at hfront
    rcases hfront with ⟨hno, -⟩ | ⟨f, later, hnext, hpart, ⟨v, hv, heq⟩ | ⟨-, e, hno⟩⟩
    · exact absurd hno (by simp)
    · obtain ⟨rfl, rfl⟩ := Scan.frame.inj heq
      refine ⟨?_, h.formed, ?_, fun hstop => ?_⟩
      · rw [List.length_append]
        exact h.feeds.reads hnext hpart
      · rw [List.length_append, List.length_singleton, List.take_add, hnext, List.map_append,
          List.map_append, h.read]
        show _ ++ [some frame] = _ ++ [seen J f]
        rw [hv]
      · dsimp only at hstop
        rw [hgo] at hstop
        exact absurd hstop (by simp)
    · exact absurd hno (by simp)
  · rw [hscan] at hfront
    rcases hfront with ⟨hno, -⟩ | ⟨f, later, hnext, -, ⟨v, -, hno⟩ | ⟨hv, -⟩⟩
    · exact absurd hno (by simp)
    · exact absurd hno (by simp)
    · refine ⟨h.feeds, h.formed, h.read, fun _ => ⟨f, ?_, hv⟩⟩
      rw [hnext]
      rfl

theorem Kept.step {x x' : Outbound H} {a : Action} (h : Kept J x)
    (hs : x.step J a = some x') : Kept J x' := by
  cases a with
  | writes frame => exact h.writes hs
  | sends count =>
    obtain ⟨pipe, hpipe, rfl⟩ := Option.map_eq_some_iff.1 hs
    have hsame := Pipe.send_eq hpipe
    refine ⟨h.feeds.moves ?_, h.formed, h.read, h.stopped⟩
    dsimp only
    rw [List.append_assoc, hsame, List.append_assoc]
  | fails =>
    obtain ⟨pipe, hpipe, rfl⟩ := Option.map_eq_some_iff.1 hs
    obtain ⟨hway, hunsent⟩ := Pipe.fails_eq hpipe
    refine ⟨h.feeds.moves ?_, h.formed, h.read, h.stopped⟩
    dsimp only
    rw [hway, hunsent]
  | turns count => exact h.turns hs

end Outbound

/-! ## From the sidecar to the channel -/

/-- The frame of the sidecar as the channel sees it. -/
def wire (J : Json H) (frame : Frame H) : SidecarFrame := ⟨J.dumps frame.header, frame.payload⟩

/-- The bytes of a frame of the sidecar. -/
def wireBytes (J : Json H) (frame : Frame H) : List UInt8 := frameBytes (wire J frame)

namespace Inbound

variable {max : ℕ}

/-- What ends the reader: no read of the sidecar's own frames but one too
large. -/
def tooLarge : Error := ⟨.inferenceFailed, "sidecar frame size exceeds limit", none⟩

/-- How far `read_frame` is. -/
def Stage (J : Json H) (max : ℕ) (x : Inbound H) : Prop :=
  match x.reading with
  | .words => x.want = kFramePrefixBytes
  | .body => ∃ f, (x.sent.drop x.read.length).head? = some f ∧
      x.want = (wireBytes J f).length ∧ f.payload.length ≤ max

/-- What holds in every run. -/
structure Kept (J : Json H) (max : ℕ) (x : Inbound H) : Prop where
  feeds : Feeds (wireBytes J) x.sent x.read.length x.buf x.pipe.way x.pipe.unsent
  formed : ∀ f ∈ x.sent, Encodable (wire J f)
  read : x.read = (x.sent.take x.read.length).map (wire J)
  small : ∀ f ∈ x.sent.take x.read.length, f.payload.length ≤ max
  fits : x.buf.length ≤ x.want
  stage : Stage J max x
  stopped : ∀ e, x.stopped = some e →
    e = tooLarge ∧ ∃ f, (x.sent.drop x.read.length).head? = some f ∧ max < f.payload.length

theorem kept_fresh (J : Json H) (max : ℕ) : Kept J max {} where
  feeds := feeds_nil _
  formed := fun _ h => absurd h List.not_mem_nil
  read := rfl
  small := fun _ h => absurd h List.not_mem_nil
  fits := Nat.zero_le _
  stage := rfl
  stopped := fun _ h => absurd h (by simp)

theorem Kept.writes {x x' : Inbound H} {frame : Frame H} (h : Kept J max x)
    (hs : x.writes J frame = some x') : Kept J max x' := by
  unfold Inbound.writes at hs
  split at hs
  · exact absurd hs (by simp)
  rename_i bytes henc
  obtain ⟨hok, rfl⟩ := encodeFrame_ok_iff.1 (encode_ok_iff.1 henc)
  obtain ⟨pipe, hpipe, rfl⟩ := Option.map_eq_some_iff.1 hs
  obtain ⟨hunsent, rfl⟩ := Pipe.write_eq hpipe
  have hle := h.feeds.1
  have hfeeds := h.feeds.writes frame
  rw [hunsent, List.nil_append] at hfeeds
  have hhead : ∀ f, (x.sent.drop x.read.length).head? = some f →
      ((x.sent ++ [frame]).drop x.read.length).head? = some f := by
    intro f hf
    rw [List.drop_append_of_le_length hle, List.head?_append, hf]
    rfl
  refine ⟨hfeeds, fun f hf => ?_, ?_, ?_, h.fits, ?_, fun e he => ?_⟩
  · rcases List.mem_append.1 hf with hold | hnew
    · exact h.formed f hold
    · rw [List.mem_singleton.1 hnew]
      exact hok
  · rw [List.take_append_of_le_length hle]
    exact h.read
  · rw [List.take_append_of_le_length hle]
    exact h.small
  · have hstage := h.stage
    unfold Stage at hstage ⊢
    dsimp only
    rcases hr : x.reading with - | -
    · rw [hr] at hstage
      exact hstage
    · rw [hr] at hstage
      obtain ⟨f, hf, hwant, hsmall⟩ := hstage
      exact ⟨f, hhead f hf, hwant, hsmall⟩
  · obtain ⟨htext, f, hf, hlarge⟩ := h.stopped e he
    exact ⟨htext, f, hhead f hf, hlarge⟩

/-- The bytes of a frame begin with its words. -/
theorem take_wireBytes (J : Json H) (f : Frame H) : (wireBytes J f).take kFramePrefixBytes =
    frameWords (J.dumps f.header).length f.payload.length := by
  unfold wireBytes wire frameBytes
  rw [List.append_assoc, List.take_left' (length_frameWords _ _)]

/-- **What a full buffer holds**: of the next frame that was written, so many
bytes as were asked for. -/
theorem Kept.front {x : Inbound H} (h : Kept J max x) {f : Frame H} {later : List (Frame H)}
    (hnext : x.sent.drop x.read.length = f :: later)
    (hlen : x.buf.length ≤ (wireBytes J f).length) : x.buf <+: wireBytes J f := by
  have hbuf := h.feeds.begins
  rw [hnext, stream_cons] at hbuf
  exact List.prefix_of_prefix_length_le hbuf (List.prefix_append _ _) hlen

theorem Kept.next {x : Inbound H} (h : Kept J max x) (hbuf : 0 < x.buf.length) :
    ∃ f later, x.sent.drop x.read.length = f :: later := by
  rcases hleft : x.sent.drop x.read.length with - | ⟨f, later⟩
  · have hnone := h.feeds.begins
    rw [hleft, stream_nil, List.prefix_nil] at hnone
    rw [hnone] at hbuf
    exact absurd hbuf (Nat.lt_irrefl _)
  · exact ⟨f, later, rfl⟩

/-- The words of a full prefix are those of the next frame. -/
theorem Kept.words {x : Inbound H} (h : Kept J max x) (hfull : x.buf.length = kFramePrefixBytes) :
    ∃ f later, x.sent.drop x.read.length = f :: later ∧ Encodable (wire J f) ∧
      readBeU32 x.buf 0 = kFrameMagic ∧ readBeU32 x.buf 4 = kProtocolWireVersion ∧
      readBeU32 x.buf 8 = (J.dumps f.header).length ∧ readBeU32 x.buf 12 = f.payload.length := by
  obtain ⟨f, later, hnext⟩ := h.next (by rw [hfull]; exact Nat.succ_pos _)
  have hmem : f ∈ x.sent.drop x.read.length := by
    rw [hnext]
    exact List.mem_cons_self
  have henc : Encodable (wire J f) := h.formed f (List.drop_subset _ _ hmem)
  have hlen : x.buf.length ≤ (wireBytes J f).length := by
    unfold wireBytes
    rw [length_frameBytes, hfull]
    omega
  have hbuf : x.buf = frameWords (J.dumps f.header).length f.payload.length ++ [] := by
    rw [List.append_nil, ← take_wireBytes J f, ← hfull]
    exact List.prefix_iff_eq_take.1 (h.front hnext hlen)
  have hwords := readBeU32_frameWords henc.1 henc.2 []
  unfold wire at hwords
  dsimp only at hwords
  rw [← hbuf] at hwords
  exact ⟨f, later, hnext, henc, hwords⟩

/-- What a turn of the channel's reader does. -/
theorem turns_cases {x x' : Inbound H} {count : ℕ} (h : Kept J max x)
    (hs : x.turns max count = some x') :
    x.stopped = none ∧
      ((∃ chunk pipe, x.buf.length + count ≤ x.want ∧ x.pipe.recv count = some (chunk, pipe) ∧
          x' = { x with pipe := pipe, buf := x.buf ++ chunk }) ∨
        (∃ f, (x.sent.drop x.read.length).head? = some f ∧ max < f.payload.length ∧
          x' = { x with stopped := some tooLarge }) ∨
        (∃ f, (x.sent.drop x.read.length).head? = some f ∧ f.payload.length ≤ max ∧
          x.buf.length = kFramePrefixBytes ∧
          x' = { x with reading := .body, want := (wireBytes J f).length }) ∨
        ∃ f later, x.sent.drop x.read.length = f :: later ∧ f.payload.length ≤ max ∧
          x.buf = wireBytes J f ∧
          x' = { x with
            reading := .words, buf := [], want := kFramePrefixBytes,
            read := x.read ++ [wire J f] }) := by
  unfold Inbound.turns at hs
  by_cases hstop : x.stopped.isSome = true
  · rw [if_pos hstop] at hs
    exact absurd hs (by simp)
  rw [if_neg hstop] at hs
  refine ⟨Option.not_isSome_iff_eq_none.1 hstop, ?_⟩
  by_cases hshort : x.buf.length < x.want
  · left
    rw [if_pos hshort] at hs
    by_cases hmany : count > x.want - x.buf.length
    · rw [if_pos hmany] at hs
      exact absurd hs (by simp)
    rw [if_neg hmany] at hs
    obtain ⟨⟨chunk, pipe⟩, hrecv, heq⟩ := Option.map_eq_some_iff.1 hs
    exact ⟨chunk, pipe, by omega, hrecv, heq.symm⟩
  right
  rw [if_neg hshort] at hs
  have hfull : x.buf.length = x.want := Nat.le_antisymm h.fits (Nat.le_of_not_lt hshort)
  have hstage := h.stage
  unfold Stage at hstage
  rcases hr : x.reading with - | -
  · rw [hr] at hs hstage
    obtain ⟨f, later, hnext, henc, hmagic, hversion, hhdr, hpld⟩ := h.words (hfull.trans hstage)
    have hhead : (x.sent.drop x.read.length).head? = some f := by
      rw [hnext]
      rfl
    dsimp only at hs
    rw [hmagic, hversion, hhdr, hpld, if_neg (not_not.2 rfl), if_neg (not_not.2 rfl)] at hs
    by_cases hlarge : max < f.payload.length
    · left
      rw [if_pos (.inr (.inr hlarge))] at hs
      exact ⟨f, hhead, hlarge, (Option.some.inj hs).symm⟩
    · right
      left
      have hok : ¬((J.dumps f.header).length > kMaxHeaderLen ∨
          f.payload.length > kMaxPayloadLen ∨ f.payload.length > max) := by
        rintro (hh | hp | hp)
        · exact Nat.not_lt.2 henc.1 hh
        · exact Nat.not_lt.2 henc.2 hp
        · exact hlarge hp
      rw [if_neg hok] at hs
      refine ⟨f, hhead, Nat.le_of_not_lt hlarge, hfull.trans hstage, ?_⟩
      rw [← Option.some.inj hs]
      unfold wireBytes
      rw [length_frameBytes]
      rfl
  · right
    right
    rw [hr] at hs hstage
    obtain ⟨f, hhead, hwant, hsmall⟩ := hstage
    obtain ⟨later, hnext⟩ := List.head?_eq_some_iff.1 hhead
    have hbuf : x.buf = wireBytes J f :=
      (h.front hnext (Nat.le_of_eq (hfull.trans hwant))).eq_of_length (hfull.trans hwant)
    have henc : Encodable (wire J f) :=
      h.formed f (List.drop_subset x.read.length _ (by rw [hnext]; exact List.mem_cons_self))
    have hdecode : decodeFrame x.buf = .ok (wire J f, (wireBytes J f).length) := by
      have hd := decodeFrame_frameBytes henc []
      rw [List.append_nil] at hd
      rw [hbuf]
      exact hd
    dsimp only at hs
    rw [hdecode] at hs
    exact ⟨f, later, hnext, hsmall, hbuf, (Option.some.inj hs).symm⟩

/-- **A turn of the channel's reader.** -/
theorem Kept.turns {x x' : Inbound H} {count : ℕ} (h : Kept J max x)
    (hs : x.turns max count = some x') : Kept J max x' := by
  obtain ⟨hgo, ⟨chunk, pipe, hfits, hrecv, rfl⟩ | ⟨f, hhead, hlarge, rfl⟩ |
    ⟨f, hhead, hsmall, hfull, rfl⟩ | ⟨f, later, hnext, hsmall, hbuf, rfl⟩⟩ := turns_cases h hs
  · obtain ⟨hway, hunsent, hlen⟩ := Pipe.recv_eq hrecv
    refine ⟨h.feeds.moves ?_, h.formed, h.read, h.small, ?_, h.stage, h.stopped⟩
    · dsimp only
      rw [hunsent, ← hway, List.append_assoc x.buf]
    · dsimp only
      rw [List.length_append, hlen]
      exact hfits
  · refine ⟨h.feeds, h.formed, h.read, h.small, h.fits, h.stage, fun e he => ?_⟩
    obtain rfl := Option.some.inj he
    exact ⟨rfl, f, hhead, hlarge⟩
  · refine ⟨h.feeds, h.formed, h.read, h.small, ?_, ⟨f, hhead, rfl, hsmall⟩, h.stopped⟩
    dsimp only
    unfold wireBytes
    rw [hfull, length_frameBytes]
    omega
  · have hfeeds := h.feeds.reads hnext (hbuf ▸ List.prefix_rfl)
    rw [hbuf, List.drop_length] at hfeeds
    refine ⟨?_, h.formed, ?_, fun g hg => ?_, Nat.zero_le _, rfl, fun e he => ?_⟩
    · dsimp only
      rw [List.length_append]
      exact hfeeds
    · dsimp only
      rw [List.length_append, List.length_singleton, List.take_add, hnext, List.map_append,
        ← h.read]
      rfl
    · dsimp only at hg
      rw [List.length_append, List.length_singleton, List.take_add, hnext] at hg
      rcases List.mem_append.1 hg with hold | hnew
      · exact h.small g hold
      · obtain rfl : g = f := by simpa using hnew
        exact hsmall
    · dsimp only at he
      rw [hgo] at he
      exact absurd he (by simp)

theorem Kept.step {x x' : Inbound H} {a : Action H} (h : Kept J max x)
    (hs : x.step J max a = some x') : Kept J max x' := by
  cases a with
  | writes frame => exact h.writes hs
  | sends count =>
    obtain ⟨pipe, hpipe, rfl⟩ := Option.map_eq_some_iff.1 hs
    have hsame := Pipe.send_eq hpipe
    refine ⟨h.feeds.moves ?_, h.formed, h.read, h.small, h.fits, h.stage, h.stopped⟩
    dsimp only
    rw [List.append_assoc, hsame, List.append_assoc]
  | fails =>
    obtain ⟨pipe, hpipe, rfl⟩ := Option.map_eq_some_iff.1 hs
    obtain ⟨hway, hunsent⟩ := Pipe.fails_eq hpipe
    refine ⟨h.feeds.moves ?_, h.formed, h.read, h.small, h.fits, h.stage, h.stopped⟩
    dsimp only
    rw [hway, hunsent]
  | turns count => exact h.turns hs

end Inbound

end Codec

end Sidecar

end Tensorplate
