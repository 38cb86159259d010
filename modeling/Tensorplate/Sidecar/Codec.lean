import Tensorplate.Lib.Framing
import Tensorplate.Sidecar.Model.Codec

/-!
# The two copies of the frame codec

Both copies make the same checks of a prefix in the same order, so what
either finds at the front of a buffer is one verdict. A frame is found where
its bytes stand, and bytes taken for a frame are those of that frame alone;
so a buffer is read as frames in one way.
-/

namespace Tensorplate

namespace Sidecar

namespace Codec

open Lib

variable {H : Type} {bytes buf rest : List UInt8} {frame : SidecarFrame} {n h p : ℕ}

/-! ## Words -/

@[simp] theorem length_writeBeU32 (n : ℕ) : (writeBeU32 n).length = 4 := rfl

@[simp] theorem length_frameWords (h p : ℕ) : (frameWords h p).length = kFramePrefixBytes := rfl

theorem readBeU32_append (front rest : List UInt8) (k : ℕ) :
    readBeU32 (front ++ rest) (front.length + k) = readBeU32 rest k := by
  unfold readBeU32
  rw [List.drop_append, List.drop_eq_nil_of_le (Nat.le_add_right _ _), List.nil_append,
    Nat.add_sub_cancel_left]

theorem readBeU32_writeBeU32 (hn : n < 2 ^ 32) (rest : List UInt8) :
    readBeU32 (writeBeU32 n ++ rest) 0 = n := by
  simp only [readBeU32, writeBeU32, List.drop_zero, List.cons_append, UInt8.toNat_ofNat']
  omega

/-- The word of four bytes is written as these four. -/
theorem writeBeU32_readBeU32 {offset : ℕ} (hlen : offset + 4 ≤ bytes.length) :
    writeBeU32 (readBeU32 bytes offset) = (bytes.drop offset).take 4 := by
  unfold readBeU32
  have hfour : 4 ≤ (bytes.drop offset).length := by
    rw [List.length_drop]
    omega
  generalize bytes.drop offset = four at hfour ⊢
  rcases four with - | ⟨b₀, - | ⟨b₁, - | ⟨b₂, - | ⟨b₃, tail⟩⟩⟩⟩
  · exact absurd hfour (by simp)
  · exact absurd hfour (by simp)
  · exact absurd hfour (by simp)
  · exact absurd hfour (by simp)
  have h₀ := UInt8.toNat_lt b₀
  have h₁ := UInt8.toNat_lt b₁
  have h₂ := UInt8.toNat_lt b₂
  have h₃ := UInt8.toNat_lt b₃
  have hbyte : ∀ {m : ℕ} {b : UInt8}, m % 256 = b.toNat → UInt8.ofNat m = b := by
    intro m b hm
    apply UInt8.toNat_inj.1
    rw [UInt8.toNat_ofNat']
    exact hm
  simp only [writeBeU32, List.take_succ_cons, List.take_zero, List.cons.injEq, and_true]
  exact ⟨hbyte (by omega), hbyte (by omega), hbyte (by omega), hbyte (by omega)⟩

/-! ## One verdict -/

/-- What the checks of a prefix find. -/
inductive Verdict
  | short
  | magic
  | version
  | header
  | payload
  | body
  | whole (hdrLen pldLen : ℕ)
  deriving DecidableEq

/-- The checks, in the order both copies make them. -/
def verdict (bytes : List UInt8) : Verdict :=
  if bytes.length < kFramePrefixBytes then .short
  else if readBeU32 bytes 0 ≠ kFrameMagic then .magic
  else if readBeU32 bytes 4 ≠ kProtocolWireVersion then .version
  else if readBeU32 bytes 8 > kMaxHeaderLen then .header
  else if readBeU32 bytes 12 > kMaxPayloadLen then .payload
  else if bytes.length < kFramePrefixBytes + readBeU32 bytes 8 + readBeU32 bytes 12 then .body
  else .whole (readBeU32 bytes 8) (readBeU32 bytes 12)

/-- More bytes have to come. -/
def Verdict.waits : Verdict → Bool
  | .short => true
  | .body => true
  | _ => false

theorem take_words (bytes : List UInt8) : bytes.take kFramePrefixBytes =
    (bytes.drop 0).take 4 ++ (bytes.drop 4).take 4 ++ (bytes.drop 8).take 4 ++
      (bytes.drop 12).take 4 := by
  rw [show kFramePrefixBytes = 4 + 4 + 4 + 4 from rfl, List.take_add, List.take_add, List.take_add]
  rfl

theorem readBeU32_frameWords (hh : h ≤ kMaxHeaderLen) (hp : p ≤ kMaxPayloadLen)
    (rest : List UInt8) :
    readBeU32 (frameWords h p ++ rest) 0 = kFrameMagic ∧
      readBeU32 (frameWords h p ++ rest) 4 = kProtocolWireVersion ∧
      readBeU32 (frameWords h p ++ rest) 8 = h ∧ readBeU32 (frameWords h p ++ rest) 12 = p := by
  have hhlt : h < 2 ^ 32 := by
    unfold kMaxHeaderLen at hh
    omega
  have hplt : p < 2 ^ 32 := by
    unfold kMaxPayloadLen at hp
    omega
  have hskip : ∀ (value k : ℕ) (later : List UInt8),
      readBeU32 (writeBeU32 value ++ later) (4 + k) = readBeU32 later k :=
    fun value k later => readBeU32_append (writeBeU32 value) later k
  unfold frameWords
  rw [List.append_assoc, List.append_assoc, List.append_assoc]
  refine ⟨readBeU32_writeBeU32 (by decide) _, ?_, ?_, ?_⟩
  · exact (hskip _ 0 _).trans (readBeU32_writeBeU32 (by decide) _)
  · exact (hskip _ 4 _).trans ((hskip _ 0 _).trans (readBeU32_writeBeU32 hhlt _))
  · exact (hskip _ 8 _).trans ((hskip _ 4 _).trans ((hskip _ 0 _).trans
      (readBeU32_writeBeU32 hplt _)))

/-- **What a whole frame at the front of a buffer is made of.** -/
theorem verdict_whole_iff : verdict bytes = .whole h p ↔
    h ≤ kMaxHeaderLen ∧ p ≤ kMaxPayloadLen ∧ kFramePrefixBytes + h + p ≤ bytes.length ∧
      bytes.take kFramePrefixBytes = frameWords h p := by
  constructor
  · intro hv
    unfold verdict at hv
    split_ifs at hv with hshort hmagic hversion hheader hpayload hbody
    obtain ⟨rfl, rfl⟩ := Verdict.whole.inj hv
    have hlen : 16 ≤ bytes.length := Nat.le_of_not_lt hshort
    refine ⟨Nat.le_of_not_lt hheader, Nat.le_of_not_lt hpayload, Nat.le_of_not_lt hbody, ?_⟩
    rw [take_words, ← writeBeU32_readBeU32 (by omega), ← writeBeU32_readBeU32 (by omega),
      ← writeBeU32_readBeU32 (by omega), ← writeBeU32_readBeU32 (by omega), not_not.1 hmagic,
      not_not.1 hversion]
    rfl
  · rintro ⟨hh, hp, hlen, hwords⟩
    have hshort : ¬bytes.length < kFramePrefixBytes := by omega
    have hsplit : bytes = frameWords h p ++ bytes.drop kFramePrefixBytes := by
      rw [← hwords, List.take_append_drop]
    obtain ⟨hmagic, hversion, hheader, hpayload⟩ :=
      readBeU32_frameWords hh hp (bytes.drop kFramePrefixBytes)
    rw [← hsplit] at hmagic hversion hheader hpayload
    unfold verdict
    rw [if_neg hshort, hmagic, hversion, hheader, hpayload, if_neg (not_not.2 rfl),
      if_neg (not_not.2 rfl), if_neg (Nat.not_lt.2 hh), if_neg (Nat.not_lt.2 hp),
      if_neg (Nat.not_lt.2 hlen)]

/-- **The bytes of a frame**, where its sizes are within the limits. -/
def frameBytes (frame : SidecarFrame) : List UInt8 :=
  frameWords frame.jsonHeader.length frame.payload.length ++ frame.jsonHeader ++ frame.payload

/-- A frame both copies encode. -/
def Encodable (frame : SidecarFrame) : Prop :=
  frame.jsonHeader.length ≤ kMaxHeaderLen ∧ frame.payload.length ≤ kMaxPayloadLen

theorem encodeFrame_ok_iff : encodeFrame frame = .ok bytes ↔
    Encodable frame ∧ bytes = frameBytes frame := by
  unfold encodeFrame Encodable
  split_ifs with hh hp
  · exact ⟨nofun, fun hok => absurd hok.1.1 (Nat.not_le.2 hh)⟩
  · exact ⟨nofun, fun hok => absurd hok.1.2 (Nat.not_le.2 hp)⟩
  · rw [Except.ok.injEq]
    exact ⟨fun heq => ⟨⟨Nat.le_of_not_lt hh, Nat.le_of_not_lt hp⟩, heq.symm⟩, fun hok => hok.2.symm⟩

@[simp] theorem length_frameBytes (frame : SidecarFrame) : (frameBytes frame).length =
    kFramePrefixBytes + frame.jsonHeader.length + frame.payload.length := by
  unfold frameBytes
  rw [List.length_append, List.length_append, length_frameWords]

/-- A frame is found where its bytes stand. -/
theorem verdict_frameBytes (hf : Encodable frame) (rest : List UInt8) :
    verdict (frameBytes frame ++ rest) =
      .whole frame.jsonHeader.length frame.payload.length := by
  refine verdict_whole_iff.2 ⟨hf.1, hf.2, ?_, ?_⟩
  · rw [List.length_append, length_frameBytes]
    omega
  · unfold frameBytes
    rw [List.append_assoc, List.append_assoc, List.take_left' (length_frameWords _ _)]

theorem frameAt_frameBytes (frame : SidecarFrame) (rest : List UInt8) :
    frameAt (frameBytes frame ++ rest) frame.jsonHeader.length frame.payload.length = frame := by
  have hhead : (frameBytes frame ++ rest).drop kFramePrefixBytes =
      frame.jsonHeader ++ (frame.payload ++ rest) := by
    unfold frameBytes
    rw [List.append_assoc, List.append_assoc, List.drop_left' (length_frameWords _ _)]
  unfold frameAt
  rw [← List.drop_drop, hhead, List.take_left, List.drop_left, List.take_left]

/-- **Bytes taken for a frame are that frame's.** -/
theorem frameBytes_of_whole (hv : verdict bytes = .whole h p) :
    Encodable (frameAt bytes h p) ∧ bytes.take (kFramePrefixBytes + h + p) =
      frameBytes (frameAt bytes h p) ∧ (frameBytes (frameAt bytes h p)).length =
        kFramePrefixBytes + h + p := by
  obtain ⟨hh, hp, hlen, hwords⟩ := verdict_whole_iff.1 hv
  have hheader : (frameAt bytes h p).jsonHeader.length = h := by
    unfold frameAt
    rw [List.length_take, List.length_drop]
    omega
  have hpayload : (frameAt bytes h p).payload.length = p := by
    unfold frameAt
    rw [List.length_take, List.length_drop]
    omega
  refine ⟨⟨Nat.le_trans (Nat.le_of_eq hheader) hh, Nat.le_trans (Nat.le_of_eq hpayload) hp⟩, ?_, ?_⟩
  · unfold frameBytes
    rw [hheader, hpayload, ← hwords, Nat.add_assoc, List.take_add, List.take_add, List.drop_drop,
      ← List.append_assoc]
    rfl
  · rw [length_frameBytes, hheader, hpayload]

/-- While only a part of a frame is there, more has to come. -/
theorem verdict_cut (hf : Encodable frame) (hpart : buf <+: frameBytes frame)
    (hne : buf ≠ frameBytes frame) : (verdict buf).waits = true := by
  have hlt : buf.length < (frameBytes frame).length := by
    rcases Nat.lt_or_ge buf.length (frameBytes frame).length with hlt | hge
    · exact hlt
    · exact absurd (hpart.eq_of_length_le hge) hne
  rw [length_frameBytes] at hlt
  by_cases hshort : buf.length < kFramePrefixBytes
  · unfold verdict
    rw [if_pos hshort]
    rfl
  -- The words of the prefix are those of the frame.
  obtain ⟨tail, htail⟩ := hpart
  have hwords : buf.take kFramePrefixBytes =
      frameWords frame.jsonHeader.length frame.payload.length := by
    have hall : (frameBytes frame).take kFramePrefixBytes =
        frameWords frame.jsonHeader.length frame.payload.length := by
      unfold frameBytes
      rw [List.append_assoc, List.take_left' (length_frameWords _ _)]
    rw [← hall, ← htail, List.take_append_of_le_length (Nat.le_of_not_lt hshort)]
  have hsplit : buf = frameWords frame.jsonHeader.length frame.payload.length ++
      buf.drop kFramePrefixBytes := by
    rw [← hwords, List.take_append_drop]
  obtain ⟨hmagic, hversion, hheader, hpayload⟩ :=
    readBeU32_frameWords hf.1 hf.2 (buf.drop kFramePrefixBytes)
  rw [← hsplit] at hmagic hversion hheader hpayload
  unfold verdict
  rw [if_neg hshort, hmagic, hversion, hheader, hpayload, if_neg (not_not.2 rfl),
    if_neg (not_not.2 rfl), if_neg (Nat.not_lt.2 hf.1), if_neg (Nat.not_lt.2 hf.2), if_pos hlt]
  rfl

/-! ## The adapter's copy -/

/-- What `decode_frame` answers, by the verdict. -/
theorem decodeFrame_eq (bytes : List UInt8) :
    (∀ h p, verdict bytes = .whole h p →
      decodeFrame bytes = .ok (frameAt bytes h p, kFramePrefixBytes + h + p)) ∧
    ((verdict bytes).waits = true → ∃ e, decodeFrame bytes = .error e ∧ e.code = .notReady) ∧
    ((verdict bytes).waits = false → (∀ h p, verdict bytes ≠ .whole h p) →
      ∃ e, decodeFrame bytes = .error e ∧ e.code = .configInvalid) := by
  unfold verdict decodeFrame
  dsimp only
  by_cases hshort : bytes.length < kFramePrefixBytes
  · rw [if_pos hshort, if_pos hshort]
    exact ⟨nofun, fun _ => ⟨_, rfl, rfl⟩, nofun⟩
  rw [if_neg hshort, if_neg hshort]
  by_cases hmagic : readBeU32 bytes 0 ≠ kFrameMagic
  · rw [if_pos hmagic, if_pos hmagic]
    exact ⟨nofun, nofun, fun _ _ => ⟨_, rfl, rfl⟩⟩
  rw [if_neg hmagic, if_neg hmagic]
  by_cases hversion : readBeU32 bytes 4 ≠ kProtocolWireVersion
  · rw [if_pos hversion, if_pos hversion]
    exact ⟨nofun, nofun, fun _ _ => ⟨_, rfl, rfl⟩⟩
  rw [if_neg hversion, if_neg hversion]
  by_cases hheader : readBeU32 bytes 8 > kMaxHeaderLen
  · rw [if_pos hheader, if_pos hheader]
    exact ⟨nofun, nofun, fun _ _ => ⟨_, rfl, rfl⟩⟩
  rw [if_neg hheader, if_neg hheader]
  by_cases hpayload : readBeU32 bytes 12 > kMaxPayloadLen
  · rw [if_pos hpayload, if_pos hpayload]
    exact ⟨nofun, nofun, fun _ _ => ⟨_, rfl, rfl⟩⟩
  rw [if_neg hpayload, if_neg hpayload]
  by_cases hbody : bytes.length < kFramePrefixBytes + readBeU32 bytes 8 + readBeU32 bytes 12
  · rw [if_pos hbody, if_pos hbody]
    exact ⟨nofun, fun _ => ⟨_, rfl, rfl⟩, nofun⟩
  rw [if_neg hbody, if_neg hbody]
  refine ⟨fun h p heq => ?_, nofun, fun _ hno => absurd rfl (hno _ _)⟩
  obtain ⟨rfl, rfl⟩ := Verdict.whole.inj heq
  rfl

/-- Every verdict is one of three. -/
theorem verdict_cases (bytes : List UInt8) : (∃ h p, verdict bytes = .whole h p) ∨
    (verdict bytes).waits = true ∨
      ((verdict bytes).waits = false ∧ ∀ h p, verdict bytes ≠ .whole h p) := by
  cases hv : verdict bytes with
  | whole h p => exact .inl ⟨h, p, rfl⟩
  | short => exact .inr (.inl rfl)
  | body => exact .inr (.inl rfl)
  | _ => exact .inr (.inr ⟨rfl, nofun⟩)

theorem decodeFrame_ok_iff {size : ℕ} : decodeFrame bytes = .ok (frame, size) ↔
    ∃ h p, verdict bytes = .whole h p ∧ frame = frameAt bytes h p ∧
      size = kFramePrefixBytes + h + p := by
  obtain ⟨hwhole, hwaits, hbad⟩ := decodeFrame_eq bytes
  constructor
  · intro hok
    rcases verdict_cases bytes with ⟨h, p, hv⟩ | hw | ⟨hn, hno⟩
    · rw [hwhole h p hv] at hok
      obtain ⟨rfl, rfl⟩ := Prod.mk.inj (Except.ok.inj hok)
      exact ⟨h, p, hv, rfl, rfl⟩
    · obtain ⟨e, he, -⟩ := hwaits hw
      rw [he] at hok
      exact absurd hok (by simp)
    · obtain ⟨e, he, -⟩ := hbad hn hno
      rw [he] at hok
      exact absurd hok (by simp)
  · rintro ⟨h, p, hv, rfl, rfl⟩
    exact hwhole h p hv

/-- **A frame that stands at the front of a buffer is decoded**, and only a
frame that stands there. -/
theorem decodeFrame_iff {size : ℕ} : decodeFrame bytes = .ok (frame, size) ↔
    Encodable frame ∧ size = (frameBytes frame).length ∧ frameBytes frame <+: bytes := by
  rw [decodeFrame_ok_iff]
  constructor
  · rintro ⟨h, p, hv, rfl, rfl⟩
    obtain ⟨henc, htake, hlen⟩ := frameBytes_of_whole hv
    exact ⟨henc, hlen.symm, htake ▸ List.take_prefix _ _⟩
  · rintro ⟨henc, rfl, rest, rfl⟩
    exact ⟨_, _, verdict_frameBytes henc rest, (frameAt_frameBytes frame rest).symm,
      length_frameBytes frame⟩

/-- The rest of a buffer from which `decode_frames` takes nothing more. -/
def Waits (tail : List UInt8) : Prop :=
  tail = [] ∨ ∃ e, decodeFrame tail = .error e ∧ e.code = .notReady

/-- The bytes of frames, one part for each. -/
def Parts (frames : List SidecarFrame) (parts : List (List UInt8)) : Prop :=
  List.Forall₂ (fun frame part => encodeFrame frame = .ok part) frames parts

theorem decodeFrames_of_error {e : Error} (hd : decodeFrame bytes = .error e) :
    decodeFrames bytes = if e.code = .notReady then .ok ([], 0) else .error e := by
  rcases bytes with - | ⟨byte, rest⟩
  · obtain rfl := Except.error.inj hd
    rw [decodeFrames]
    rfl
  · rw [decodeFrames]
    split
    · rename_i e' he
      rw [hd] at he
      obtain rfl := Except.error.inj he
      rfl
    · rename_i frame step hok
      rw [hd] at hok
      exact absurd hok (by simp)

theorem decodeFrames_of_ok {size : ℕ} (hd : decodeFrame bytes = .ok (frame, size)) :
    decodeFrames bytes = match decodeFrames (bytes.drop size) with
      | .error e => .error e
      | .ok (frames, consumed) => .ok (frame :: frames, size + consumed) := by
  rcases bytes with - | ⟨byte, rest⟩
  · exact absurd hd (by simp [decodeFrame, kFramePrefixBytes])
  · rw [decodeFrames]
    split
    · rename_i e he
      rw [hd] at he
      exact absurd he (by simp)
    · rename_i frame' step hok
      rw [hd] at hok
      obtain ⟨rfl, rfl⟩ := Prod.mk.inj (Except.ok.inj hok)
      rfl

/-- Frames at the front of a buffer are read first. -/
theorem decodeFrames_parts {frames : List SidecarFrame} {parts : List (List UInt8)}
    (hp : Parts frames parts) (tail : List UInt8) :
    decodeFrames (parts.flatten ++ tail) = match decodeFrames tail with
      | .error e => .error e
      | .ok (more, consumed) => .ok (frames ++ more, parts.flatten.length + consumed) := by
  induction hp with
  | nil =>
    show decodeFrames tail = _
    rcases decodeFrames tail with e | ⟨more, consumed⟩
    · rfl
    · show Except.ok (more, consumed) = .ok (more, 0 + consumed)
      rw [Nat.zero_add]
  | @cons frame part frames parts henc hp ih =>
    obtain ⟨hf, rfl⟩ := encodeFrame_ok_iff.1 henc
    have hd : decodeFrame (frameBytes frame ++ (parts.flatten ++ tail)) =
        .ok (frame, (frameBytes frame).length) :=
      decodeFrame_iff.2 ⟨hf, rfl, List.prefix_append _ _⟩
    rw [List.flatten_cons, List.append_assoc, decodeFrames_of_ok hd, List.drop_left, ih]
    rcases decodeFrames tail with e | ⟨more, consumed⟩
    · rfl
    · dsimp only
      rw [List.length_append, Nat.add_assoc]
      rfl

/-- Every buffer begins with frames, as far as they go. -/
theorem exists_parts (bytes : List UInt8) : ∃ frames parts tail e, Parts frames parts ∧
    bytes = parts.flatten ++ tail ∧ decodeFrame tail = .error e := by
  induction hn : bytes.length using Nat.strongRecOn generalizing bytes with
  | ind n ih =>
    rcases hd : decodeFrame bytes with e | ⟨frame, size⟩
    · exact ⟨[], [], bytes, e, .nil, rfl, hd⟩
    · obtain ⟨hpos, hle⟩ := decodeFrame_consumed hd
      obtain ⟨hf, rfl, rest, rfl⟩ := decodeFrame_iff.1 hd
      have hshorter : rest.length < n := by
        rw [← hn, List.length_append]
        omega
      obtain ⟨frames, parts, tail, e, hp, rfl, he⟩ := ih rest.length hshorter rest rfl
      refine ⟨frame :: frames, frameBytes frame :: parts, tail, e,
        .cons (encodeFrame_ok_iff.2 ⟨hf, rfl⟩) hp, ?_, he⟩
      rw [List.flatten_cons, List.append_assoc]

/-- **`decode_frames` reads a buffer as frames in one way.** It answers with
frames exactly where the buffer is the bytes `encode_frame` makes of these,
one after another, and a rest that waits for more; it refuses a buffer
exactly where such frames are followed by bytes no frame begins with. -/
theorem decodeFrames_exact (bytes : List UInt8) (frames : List SidecarFrame) (consumed : ℕ)
    (e : Error) :
    (decodeFrames bytes = .ok (frames, consumed) ↔ ∃ parts tail,
      List.Forall₂ (fun frame part => encodeFrame frame = .ok part) frames parts ∧
        bytes = parts.flatten ++ tail ∧ consumed = parts.flatten.length ∧ Waits tail) ∧
    (decodeFrames bytes = .error e ↔ ∃ frames parts tail,
      List.Forall₂ (fun frame part => encodeFrame frame = .ok part) frames parts ∧
        bytes = parts.flatten ++ tail ∧ decodeFrame tail = .error e ∧ e.code ≠ .notReady) := by
  -- Both ways round, the buffer is read up to the tail and the tail decides.
  obtain ⟨frames₀, parts₀, tail₀, e₀, hp₀, rfl, he₀⟩ := exists_parts bytes
  have hread := decodeFrames_parts hp₀ tail₀
  rw [decodeFrames_of_error he₀] at hread
  have hempty : decodeFrames [] = .ok ([], 0) := by rw [decodeFrames]
  refine ⟨⟨fun hok => ?_, ?_⟩, ⟨fun herr => ?_, ?_⟩⟩
  · by_cases hcode : e₀.code = .notReady
    · rw [if_pos hcode, hok] at hread
      obtain ⟨rfl, rfl⟩ := Prod.mk.inj (Except.ok.inj hread)
      refine ⟨parts₀, tail₀, ?_, rfl, rfl, .inr ⟨e₀, he₀, hcode⟩⟩
      rw [List.append_nil]
      exact hp₀
    · rw [if_neg hcode, hok] at hread
      exact absurd hread (by simp)
  · rintro ⟨parts, tail, hp, heq, rfl, hwaits⟩
    have htail : decodeFrames tail = .ok ([], 0) := by
      rcases hwaits with rfl | ⟨e', he', hcode⟩
      · exact hempty
      · rw [decodeFrames_of_error he', if_pos hcode]
    rw [heq, decodeFrames_parts hp tail, htail]
    dsimp only
    rw [List.append_nil, Nat.add_zero]
  · by_cases hcode : e₀.code = .notReady
    · rw [if_pos hcode, herr] at hread
      exact absurd hread (by simp)
    · rw [if_neg hcode, herr] at hread
      obtain rfl := Except.error.inj hread
      exact ⟨frames₀, parts₀, tail₀, hp₀, rfl, he₀, hcode⟩
  · rintro ⟨frames, parts, tail, hp, heq, he, hcode⟩
    rw [heq, decodeFrames_parts hp tail, decodeFrames_of_error he, if_neg hcode]

/-! ## The sidecar's copy -/

/-- What `decode_one` answers, by the verdict. -/
theorem decodeOne_eq (J : Json H) (buf : List UInt8) :
    (∀ h p, verdict buf = .whole h p → decodeOne J buf =
      match J.loads (frameAt buf h p).jsonHeader with
      | .error text =>
        .error (.error s!"sidecar frame header is not valid UTF-8 JSON: {text}")
      | .ok none => .error (.error "sidecar frame header must be a JSON object")
      | .ok (some header) =>
        .ok (⟨header, (frameAt buf h p).payload⟩, kFramePrefixBytes + h + p)) ∧
    ((verdict buf).waits = true → ∃ text, decodeOne J buf = .error (.incomplete text)) ∧
    ((verdict buf).waits = false → (∀ h p, verdict buf ≠ .whole h p) →
      ∃ text, decodeOne J buf = .error (.error text)) := by
  unfold verdict decodeOne
  dsimp only
  by_cases hshort : buf.length < kFramePrefixBytes
  · rw [if_pos hshort, if_pos hshort]
    exact ⟨nofun, fun _ => ⟨_, rfl⟩, nofun⟩
  rw [if_neg hshort, if_neg hshort]
  by_cases hmagic : readBeU32 buf 0 ≠ kFrameMagic
  · rw [if_pos hmagic, if_pos hmagic]
    exact ⟨nofun, nofun, fun _ _ => ⟨_, rfl⟩⟩
  rw [if_neg hmagic, if_neg hmagic]
  by_cases hversion : readBeU32 buf 4 ≠ kProtocolWireVersion
  · rw [if_pos hversion, if_pos hversion]
    exact ⟨nofun, nofun, fun _ _ => ⟨_, rfl⟩⟩
  rw [if_neg hversion, if_neg hversion]
  by_cases hheader : readBeU32 buf 8 > kMaxHeaderLen
  · rw [if_pos hheader, if_pos hheader]
    exact ⟨nofun, nofun, fun _ _ => ⟨_, rfl⟩⟩
  rw [if_neg hheader, if_neg hheader]
  by_cases hpayload : readBeU32 buf 12 > kMaxPayloadLen
  · rw [if_pos hpayload, if_pos hpayload]
    exact ⟨nofun, nofun, fun _ _ => ⟨_, rfl⟩⟩
  rw [if_neg hpayload, if_neg hpayload]
  by_cases hbody : buf.length < kFramePrefixBytes + readBeU32 buf 8 + readBeU32 buf 12
  · rw [if_pos hbody, if_pos hbody]
    exact ⟨nofun, fun _ => ⟨_, rfl⟩, nofun⟩
  rw [if_neg hbody, if_neg hbody]
  refine ⟨fun h p heq => ?_, nofun, fun _ hno => absurd rfl (hno _ _)⟩
  obtain ⟨rfl, rfl⟩ := Verdict.whole.inj heq
  rfl

theorem encode_ok_iff {J : Json H} {f : Frame H} :
    encode J f = .ok bytes ↔ encodeFrame ⟨J.dumps f.header, f.payload⟩ = .ok bytes := by
  rw [encodeFrame_ok_iff]
  unfold encode Encodable
  dsimp only
  split_ifs with hh hp
  · exact ⟨nofun, fun hok => absurd hok.1.1 (Nat.not_le.2 hh)⟩
  · exact ⟨nofun, fun hok => absurd hok.1.2 (Nat.not_le.2 hp)⟩
  · rw [Except.ok.injEq]
    exact ⟨fun heq => ⟨⟨Nat.le_of_not_lt hh, Nat.le_of_not_lt hp⟩, heq.symm⟩, fun hok => hok.2.symm⟩

/-- A frame the sidecar takes: its header is a JSON object. -/
theorem decodeOne_ok_iff {J : Json H} {f : Frame H} {size : ℕ} :
    decodeOne J buf = .ok (f, size) ↔ ∃ frame, decodeFrame buf = .ok (frame, size) ∧
      J.loads frame.jsonHeader = .ok (some f.header) ∧ frame.payload = f.payload := by
  obtain ⟨hwhole, hwaits, hbad⟩ := decodeOne_eq J buf
  rcases verdict_cases buf with ⟨h, p, hv⟩ | hw | ⟨hn, hno⟩
  · rw [hwhole h p hv, (decodeFrame_eq buf).1 h p hv]
    constructor
    · intro hok
      refine ⟨frameAt buf h p, ?_⟩
      split at hok
      · exact absurd hok (by simp)
      · exact absurd hok (by simp)
      · rename_i header hloads
        obtain ⟨rfl, rfl⟩ := Prod.mk.inj (Except.ok.inj hok)
        exact ⟨rfl, hloads, rfl⟩
    · rintro ⟨frame, heq, hloads, hpayload⟩
      obtain ⟨rfl, rfl⟩ := Prod.mk.inj (Except.ok.inj heq)
      rw [hloads, hpayload]
  · obtain ⟨text, htext⟩ := hwaits hw
    obtain ⟨e, he, -⟩ := (decodeFrame_eq buf).2.1 hw
    rw [htext, he]
    exact ⟨nofun, fun ⟨_, heq, _⟩ => absurd heq (by simp)⟩
  · obtain ⟨text, htext⟩ := hbad hn hno
    obtain ⟨e, he, -⟩ := (decodeFrame_eq buf).2.2 hn hno
    rw [htext, he]
    exact ⟨nofun, fun ⟨_, heq, _⟩ => absurd heq (by simp)⟩

theorem decodeOne_incomplete_iff {J : Json H} : (∃ text, decodeOne J buf = .error (.incomplete text)) ↔
    ∃ e, decodeFrame buf = .error e ∧ e.code = .notReady := by
  obtain ⟨hwhole, hwaits, hbad⟩ := decodeOne_eq J buf
  rcases verdict_cases buf with ⟨h, p, hv⟩ | hw | ⟨hn, hno⟩
  · rw [hwhole h p hv, (decodeFrame_eq buf).1 h p hv]
    constructor
    · rintro ⟨text, heq⟩
      split at heq
      · exact absurd heq (by simp)
      · exact absurd heq (by simp)
      · exact absurd heq (by simp)
    · rintro ⟨e, heq, -⟩
      exact absurd heq (by simp)
  · exact iff_of_true (hwaits hw) ((decodeFrame_eq buf).2.1 hw)
  · obtain ⟨text, htext⟩ := hbad hn hno
    obtain ⟨e, he, hcode⟩ := (decodeFrame_eq buf).2.2 hn hno
    rw [htext, he]
    refine ⟨fun ⟨_, heq⟩ => absurd heq (by simp), fun ⟨e', heq, hcode'⟩ => ?_⟩
    obtain rfl := Except.error.inj heq
    rw [hcode] at hcode'
    exact absurd hcode' (by simp)

/-- **The two copies of the codec agree.** They encode a frame as the same
bytes, wait on the same buffers, and decode the same frame of the same size
from any buffer, where its header is the text of a JSON object. A frame the
sidecar encodes is read back whole, whatever follows it, by both. -/
theorem codecs_agree (J : Json H) (buf : List UInt8) (f : Frame H) (size : ℕ) :
    (∀ bytes, encode J f = .ok bytes ↔ encodeFrame ⟨J.dumps f.header, f.payload⟩ = .ok bytes) ∧
    ((∃ text, decodeOne J buf = .error (.incomplete text)) ↔
      ∃ e, decodeFrame buf = .error e ∧ e.code = .notReady) ∧
    (decodeOne J buf = .ok (f, size) ↔ ∃ frame, decodeFrame buf = .ok (frame, size) ∧
      J.loads frame.jsonHeader = .ok (some f.header) ∧ frame.payload = f.payload) ∧
    ∀ bytes rest, encode J f = .ok bytes →
      decodeFrame (bytes ++ rest) = .ok (⟨J.dumps f.header, f.payload⟩, bytes.length) ∧
        (J.loads (J.dumps f.header) = .ok (some f.header) →
          decodeOne J (bytes ++ rest) = .ok (f, bytes.length)) := by
  refine ⟨fun _ => encode_ok_iff, decodeOne_incomplete_iff, decodeOne_ok_iff,
    fun bytes rest henc => ?_⟩
  obtain ⟨hf, rfl⟩ := encodeFrame_ok_iff.1 (encode_ok_iff.1 henc)
  have hd : decodeFrame (frameBytes ⟨J.dumps f.header, f.payload⟩ ++ rest) =
      .ok (⟨J.dumps f.header, f.payload⟩, (frameBytes ⟨J.dumps f.header, f.payload⟩).length) :=
    decodeFrame_iff.2 ⟨hf, rfl, List.prefix_append _ _⟩
  exact ⟨hd, fun hloads => decodeOne_ok_iff.2 ⟨_, hd, hloads, rfl⟩⟩

end Codec

end Sidecar

end Tensorplate
