import Mathlib.Data.List.Induction
import Tensorplate.Session.Model.Credits

/-!
# What a session's input credit keeps

Calls of an `InputCredit` one after another. The bytes held never pass the
credit, so the subtraction of `charge` never wraps, and text segments start
in the order in which they were charged. The count of audio chunks is a
32-bit word that `charge` increments without a look: where it does not
wrap, chunks and bytes run out together, and only there.
-/

namespace Tensorplate

namespace Serving

open Lib (word64 add64 sub64 add64_of_lt sub64_of_le)

/-- A call of an `InputCredit`. -/
inductive CreditCall
  | charge (bytes : ℕ)
  | releaseAudio (chunks bytes : ℕ)
  | startSegment
  | finishSegment
  deriving DecidableEq, Repr

namespace InputCredit

/-- One call. -/
def call (c : InputCredit) : CreditCall → InputCredit × Except Error Unit
  | .charge bytes => c.charge bytes
  | .releaseAudio chunks bytes => releaseAudio chunks bytes c
  | .startSegment => c.startSegment
  | .finishSegment => c.finishSegment

/-- **What an accepted call does.** -/
inductive Accepted (c : InputCredit) : CreditCall → InputCredit → Prop
  | segment {bytes : ℕ} (hkind : c.budgets.inputKind = .text) (hpos : 0 < bytes)
      (hroom : bytes ≤ sub64 c.budgets.inputCreditBytes c.heldBytes)
      (hwait : c.waitingSegments.length < c.budgets.waitingItems) :
      Accepted c (.charge bytes)
        { c with
          heldBytes := add64 c.heldBytes bytes
          waitingSegments := c.waitingSegments ++ [bytes] }
  | chunk {bytes : ℕ} (hkind : c.budgets.inputKind = .audio) (hpos : 0 < bytes)
      (hroom : bytes ≤ sub64 c.budgets.inputCreditBytes c.heldBytes) :
      Accepted c (.charge bytes)
        { c with
          heldBytes := add64 c.heldBytes bytes
          audioChunks := (c.audioChunks + 1) % chunkWord }
  | released {chunks bytes : ℕ} (hkind : c.budgets.inputKind = .audio) (hpos : 0 < bytes)
      (hbytes : bytes ≤ c.heldBytes) (hchunks : chunks ≤ c.audioChunks)
      (htogether : bytes = c.heldBytes ↔ chunks = c.audioChunks) :
      Accepted c (.releaseAudio chunks bytes)
        { c with
          heldBytes := c.heldBytes - bytes
          audioChunks := c.audioChunks - chunks }
  | started {segment : ℕ} {rest : List ℕ} (hkind : c.budgets.inputKind = .text)
      (hfront : c.waitingSegments = segment :: rest)
      (hfree : c.activeSegments < c.budgets.activeItems) :
      Accepted c .startSegment
        { c with
          heldBytes := sub64 c.heldBytes segment
          waitingSegments := rest
          activeSegments := c.activeSegments + 1 }
  | finished (hkind : c.budgets.inputKind = .text) (hactive : 0 < c.activeSegments) :
      Accepted c .finishSegment { c with activeSegments := c.activeSegments - 1 }

variable {c c' : InputCredit}

theorem kind_cases (c : InputCredit) :
    c.budgets.inputKind = .audio ∨ c.budgets.inputKind = .text := by
  cases c.budgets.inputKind
  · exact .inl rfl
  · exact .inr rfl

/-- A charge that fits the credit is accepted of audio. -/
theorem charge_chunk {bytes : ℕ} (hkind : c.budgets.inputKind = .audio) (hpos : 0 < bytes)
    (hroom : bytes ≤ sub64 c.budgets.inputCreditBytes c.heldBytes) :
    c.charge bytes = ({ c with
      heldBytes := add64 c.heldBytes bytes
      audioChunks := (c.audioChunks + 1) % chunkWord }, .ok ()) := by
  have hne : bytes ≠ 0 := by omega
  have hle : ¬bytes > sub64 c.budgets.inputCreditBytes c.heldBytes := by omega
  unfold charge
  simp [hkind, hne, hle]

/-- **A call is refused and changes nothing, or is accepted.** -/
theorem call_cases (c : InputCredit) (request : CreditCall) :
    (∃ refusal, c.call request = (c, .error refusal)) ∨
      ∃ c', Accepted c request c' ∧ c.call request = (c', .ok ()) := by
  cases request with
  | charge bytes =>
    by_cases hzero : bytes = 0
    · exact .inl ⟨_, if_pos hzero⟩
    by_cases hroom : bytes ≤ sub64 c.budgets.inputCreditBytes c.heldBytes
    · rcases kind_cases c with hkind | hkind
      · exact .inr ⟨_, .chunk hkind (by omega) hroom, charge_chunk hkind (by omega) hroom⟩
      · by_cases hwait : c.waitingSegments.length < c.budgets.waitingItems
        · refine .inr ⟨_, .segment hkind (by omega) hroom hwait, ?_⟩
          have hle : ¬bytes > sub64 c.budgets.inputCreditBytes c.heldBytes := by omega
          simp [call, charge, hkind, hzero, hle, hwait]
        · refine .inl ⟨_, (if_neg hzero).trans (if_pos ?_)⟩
          simp only [Nat.not_lt] at hwait
          simp [hkind, hwait]
    · refine .inl ⟨_, (if_neg hzero).trans (if_pos ?_)⟩
      simp only [Nat.not_le] at hroom
      simp [hroom]
  | releaseAudio chunks bytes =>
    rcases kind_cases c with hkind | hkind
    · by_cases hbad : bytes = 0 ∨ bytes > c.heldBytes ∨ chunks > c.audioChunks ∨
          (bytes == c.heldBytes) ≠ (chunks == c.audioChunks)
      · refine .inl ⟨_, (if_neg ?_).trans (if_pos hbad)⟩
        simp [hkind]
      · refine .inr ⟨_, .released hkind ?_ ?_ ?_ ?_, (if_neg (by simp [hkind])).trans (if_neg hbad)⟩
        · omega
        · omega
        · omega
        · have heq : (bytes == c.heldBytes) = (chunks == c.audioChunks) := by
            by_contra hne
            exact hbad (.inr (.inr (.inr hne)))
          rw [← beq_iff_eq, heq, beq_iff_eq]
    · refine .inl ⟨_, if_pos ?_⟩
      simp [hkind]
  | startSegment =>
    rcases kind_cases c with hkind | hkind
    · refine .inl ⟨_, if_pos ?_⟩
      simp [hkind]
    · rcases hw : c.waitingSegments with _ | ⟨segment, rest⟩
      · refine .inl ⟨startSegment.stageViolation, ?_⟩
        simp [call, startSegment, hkind, hw]
      · by_cases hfree : c.activeSegments < c.budgets.activeItems
        · refine .inr ⟨_, .started hkind hw hfree, ?_⟩
          simp [call, startSegment, hkind, hw, hfree]
        · refine .inl ⟨startSegment.stageViolation, ?_⟩
          simp only [Nat.not_lt] at hfree
          simp [call, startSegment, hkind, hw, hfree]
  | finishSegment =>
    rcases kind_cases c with hkind | hkind
    · refine .inl ⟨_, if_pos ?_⟩
      simp [hkind]
    · by_cases hactive : c.activeSegments = 0
      · exact .inl ⟨_, (if_neg (by simp [hkind])).trans (if_pos hactive)⟩
      · exact .inr ⟨_, .finished hkind (by omega),
          (if_neg (by simp [hkind])).trans (if_neg hactive)⟩

end InputCredit

/-! ## Calls one after another -/

/-- A credit with the segments `charge` accepted and those that started, in
their order. -/
structure CreditAccount where
  credit : InputCredit
  charged : List ℕ := []
  started : List ℕ := []
  deriving DecidableEq, Repr

namespace CreditAccount

/-- A session's credit before its first call. -/
def opened (budgets : SessionBudgets) : CreditAccount where
  credit := { budgets := budgets }

/-- The text segment a charge hands over. -/
def segmentOf (c : InputCredit) : CreditCall → List ℕ
  | .charge bytes => if c.budgets.inputKind = .text then [bytes] else []
  | _ => []

/-- The text segment a start takes: the one at the front of the deque. -/
def startOf (c : InputCredit) : CreditCall → List ℕ
  | .startSegment => c.waitingSegments.head?.toList
  | _ => []

/-- One call, noted where it was accepted. -/
def step (a : CreditAccount) (request : CreditCall) : CreditAccount :=
  match a.credit.call request with
  | (c, .error _) => { a with credit := c }
  | (c, .ok ()) =>
    { credit := c
      charged := a.charged ++ segmentOf a.credit request
      started := a.started ++ startOf a.credit request }

/-- The account after a sequence of calls. -/
def after (budgets : SessionBudgets) (requests : List CreditCall) : CreditAccount :=
  requests.foldl step (opened budgets)

/-- **What a credit keeps.** -/
structure Kept (a : CreditAccount) : Prop where
  within : a.credit.heldBytes ≤ a.credit.budgets.inputCreditBytes
  room : sub64 a.credit.budgets.inputCreditBytes a.credit.heldBytes =
    a.credit.budgets.inputCreditBytes - a.credit.heldBytes
  audio : a.credit.budgets.inputKind = .audio →
    (a.credit.heldBytes = 0 ↔ a.credit.audioChunks = 0)
  text : a.credit.budgets.inputKind = .text →
    a.credit.heldBytes = a.credit.waitingSegments.sum ∧ a.credit.waitingSegments.length ≤ 2 ∧
      a.credit.activeSegments ≤ 1 ∧ a.credit.depth ≤ 3
  ordered : a.charged = a.started ++ a.credit.waitingSegments
  refusal : ∀ request refusal, (a.credit.call request).2 = .error refusal →
    (a.credit.call request).1 = a.credit

/-- **The chunk a call adds can be counted.** A charge that is accepted of
audio does not find `2 ^ 32 - 1` chunks held. -/
def Counted (c : InputCredit) : CreditCall → Prop
  | .charge bytes => c.budgets.inputKind = .audio → 0 < bytes →
      c.heldBytes + bytes ≤ c.budgets.inputCreditBytes → c.audioChunks + 1 < chunkWord
  | _ => True

/-- What holds after any sequence of calls. -/
structure Sound (a : CreditAccount) : Prop where
  within : a.credit.heldBytes ≤ a.credit.budgets.inputCreditBytes
  chunks : a.credit.audioChunks < chunkWord
  audio : a.credit.budgets.inputKind = .audio → a.credit.waitingSegments = []
  text : a.credit.budgets.inputKind = .text →
    a.credit.heldBytes = a.credit.waitingSegments.sum ∧ a.credit.audioChunks = 0 ∧
      a.credit.waitingSegments.length ≤ 2 ∧ a.credit.activeSegments ≤ 1
  ordered : a.charged = a.started ++ a.credit.waitingSegments

variable {a : CreditAccount} {request : CreditCall}

/-- The credit of a session fits a word. -/
theorem credit_lt (budgets : SessionBudgets) : budgets.inputCreditBytes < word64 := by
  have hshape := budgets.isShaped
  unfold SessionBudgets.shaped at hshape
  split at hshape
  · have hmax : kMaxAudioFramesBytes < word64 := by decide
    omega
  · have hmax : SessionBudgets.kWaitingTextBytes < word64 := by decide
    omega

/-- A text session lets two segments wait and one be active. -/
theorem text_items {budgets : SessionBudgets} (h : budgets.inputKind = .text) :
    budgets.waitingItems = 2 ∧ budgets.activeItems = 1 := by
  have hshape := budgets.isShaped
  rw [h] at hshape
  exact ⟨hshape.2.1, hshape.2.2.1⟩

theorem Sound.room (h : Sound a) :
    sub64 a.credit.budgets.inputCreditBytes a.credit.heldBytes =
      a.credit.budgets.inputCreditBytes - a.credit.heldBytes :=
  sub64_of_le h.within (credit_lt _)

/-- What a call charges and its credit has room for is added without a wrap. -/
theorem Sound.add (h : Sound a) {bytes : ℕ}
    (hroom : bytes ≤ sub64 a.credit.budgets.inputCreditBytes a.credit.heldBytes) :
    add64 a.credit.heldBytes bytes = a.credit.heldBytes + bytes ∧
      a.credit.heldBytes + bytes ≤ a.credit.budgets.inputCreditBytes := by
  rw [h.room] at hroom
  have hw := h.within
  have hc := credit_lt a.credit.budgets
  exact ⟨add64_of_lt (by omega), by omega⟩

theorem step_refused {refusal : Error} (h : a.credit.call request = (a.credit, .error refusal)) :
    a.step request = a := by
  unfold step
  rw [h]

theorem step_accepted {c : InputCredit} (h : a.credit.call request = (c, .ok ())) :
    a.step request =
      { credit := c
        charged := a.charged ++ segmentOf a.credit request
        started := a.started ++ startOf a.credit request } := by
  unfold step
  rw [h]

/-- **Every call keeps the account sound.** -/
theorem Sound.step (h : Sound a) (request : CreditCall) : Sound (a.step request) := by
  rcases a.credit.call_cases request with ⟨refusal, hcall⟩ | ⟨c, hacc, hcall⟩
  · rw [step_refused hcall]
    exact h
  rw [step_accepted hcall]
  have hword : 0 < chunkWord := by decide
  cases hacc with
  | @segment bytes hkind hpos hroom hwait =>
    obtain ⟨hadd, hfits⟩ := h.add hroom
    obtain ⟨hsum, hnone, -, hactive⟩ := h.text hkind
    rw [(text_items hkind).1] at hwait
    refine ⟨by dsimp only; omega, h.chunks, fun haudio => ?_, fun _ => ⟨?_, hnone, ?_, hactive⟩, ?_⟩
    · exact absurd (hkind.symm.trans haudio) (by decide)
    · dsimp only
      rw [hadd, hsum, List.sum_append, List.sum_singleton]
    · dsimp only
      rw [List.length_append, List.length_singleton]
      omega
    · dsimp only [segmentOf, startOf]
      rw [if_pos hkind, List.append_nil, h.ordered, List.append_assoc]
  | @chunk bytes hkind hpos hroom =>
    obtain ⟨hadd, hfits⟩ := h.add hroom
    refine ⟨by dsimp only; omega, Nat.mod_lt _ hword, h.audio, fun htext => ?_, ?_⟩
    · exact absurd (hkind.symm.trans htext) (by decide)
    · dsimp only [segmentOf, startOf]
      rw [if_neg (by rw [hkind]; decide), List.append_nil, List.append_nil]
      exact h.ordered
  | @released chunks bytes hkind hpos hbytes hchunks htogether =>
    have hw := h.within
    have hc := h.chunks
    refine ⟨by dsimp only; omega, by dsimp only; omega, h.audio, fun htext => ?_, ?_⟩
    · exact absurd (hkind.symm.trans htext) (by decide)
    · dsimp only [segmentOf, startOf]
      rw [List.append_nil, List.append_nil]
      exact h.ordered
  | @started segment rest hkind hfront hfree =>
    obtain ⟨hsum, hnone, hlen, hactive⟩ := h.text hkind
    rw [(text_items hkind).2] at hfree
    rw [hfront, List.sum_cons] at hsum
    rw [hfront, List.length_cons] at hlen
    have hw := h.within
    have hc := credit_lt a.credit.budgets
    have hsub : sub64 a.credit.heldBytes segment = rest.sum := by
      rw [sub64_of_le (by omega) (by omega), hsum, Nat.add_sub_cancel_left]
    refine ⟨by dsimp only; omega, h.chunks, fun haudio => ?_,
      fun _ => ⟨hsub, hnone, by dsimp only; omega, by dsimp only; omega⟩, ?_⟩
    · exact absurd (hkind.symm.trans haudio) (by decide)
    · dsimp only [segmentOf, startOf]
      rw [List.append_nil, h.ordered, hfront, List.head?_cons, Option.toList_some,
        List.append_assoc, List.singleton_append]
  | finished hkind hactive =>
    obtain ⟨hsum, hnone, hlen, hone⟩ := h.text hkind
    refine ⟨h.within, h.chunks, h.audio, fun _ => ⟨hsum, hnone, hlen, by dsimp only; omega⟩, ?_⟩
    dsimp only [segmentOf, startOf]
    rw [List.append_nil, List.append_nil]
    exact h.ordered

theorem sound_opened (budgets : SessionBudgets) : Sound (opened budgets) where
  within := Nat.zero_le _
  chunks := show 0 < chunkWord by decide
  audio := fun _ => rfl
  text := fun _ => ⟨rfl, rfl, Nat.zero_le _, Nat.zero_le _⟩
  ordered := rfl

theorem after_append (budgets : SessionBudgets) (requests : List CreditCall) (request : CreditCall) :
    after budgets (requests ++ [request]) = (after budgets requests).step request := by
  unfold after
  rw [List.foldl_append]
  rfl

theorem sound_after (budgets : SessionBudgets) (requests : List CreditCall) :
    Sound (after budgets requests) := by
  induction requests using List.reverseRecOn with
  | nil => exact sound_opened budgets
  | append_singleton requests request ih =>
    rw [after_append]
    exact ih.step request

/-- Chunks and bytes run out together. -/
def Together (a : CreditAccount) : Prop :=
  a.credit.budgets.inputKind = .audio → (a.credit.heldBytes = 0 ↔ a.credit.audioChunks = 0)

/-- **A call whose chunk can be counted** lets chunks and bytes run out
together. -/
theorem Together.step (ht : Together a) (h : Sound a) (hc : Counted a.credit request) :
    Together (a.step request) := by
  rcases a.credit.call_cases request with ⟨refusal, hcall⟩ | ⟨c, hacc, hcall⟩
  · rw [step_refused hcall]
    exact ht
  rw [step_accepted hcall]
  intro haudio
  dsimp only at haudio ⊢
  cases hacc with
  | segment hkind _ _ _ => exact absurd (hkind.symm.trans haudio) (by decide)
  | chunk hkind hpos hroom =>
    obtain ⟨hadd, hfits⟩ := h.add hroom
    have hlt := hc hkind hpos hfits
    dsimp only
    rw [hadd, Nat.mod_eq_of_lt hlt]
    omega
  | released hkind hpos hbytes hchunks htogether =>
    dsimp only
    omega
  | started hkind _ _ => exact absurd (hkind.symm.trans haudio) (by decide)
  | finished hkind _ => exact absurd (hkind.symm.trans haudio) (by decide)

theorem Sound.kept (h : Sound a) (ht : Together a) : Kept a where
  within := h.within
  room := h.room
  audio := ht
  text := by
    intro hkind
    obtain ⟨hsum, hnone, hlen, hactive⟩ := h.text hkind
    refine ⟨hsum, hlen, hactive, ?_⟩
    unfold InputCredit.depth
    have := Nat.mod_le (a.credit.audioChunks + a.credit.waitingSegments.length +
      a.credit.activeSegments) chunkWord
    omega
  ordered := h.ordered
  refusal := by
    intro request refusal hrefused
    rcases a.credit.call_cases request with ⟨_, hcall⟩ | ⟨c, _, hcall⟩
    · rw [hcall]
    · rw [hcall] at hrefused
      cases hrefused

end CreditAccount

end Serving

end Tensorplate
