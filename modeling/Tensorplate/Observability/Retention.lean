import Mathlib.Data.List.DropRight
import Tensorplate.Lib.Runs
import Tensorplate.Observability.Model.Retention

/-!
# What the retention keeps

Between two drains the queue is a function of what arrived: its newest
events, or its oldest, by the policy. So no event is lost but by the policy,
none is handed out twice, and the counters add up; and the file is made of
the lines of whole flushes, more than one of them only within the bound.
-/

namespace Tensorplate

namespace Observability

open Lib

variable {E : Type} {F : LogFormat E} {config : RetentionConfig}

/-- **What the policy keeps** of the events since the last drain. -/
def RetentionConfig.kept (config : RetentionConfig) (since : List E) : List E :=
  match config.dropPolicy with
  | .dropOldest => since.rtake config.effectiveCapacity
  | .dropIncoming => since.take config.effectiveCapacity

theorem effectiveCapacity_pos (config : RetentionConfig) : 0 < config.effectiveCapacity :=
  Nat.lt_of_lt_of_le Nat.one_pos (Nat.le_max_right _ _)

theorem kept_nil (config : RetentionConfig) : config.kept ([] : List E) = [] := by
  unfold RetentionConfig.kept
  split
  · exact List.rtake_nil _
  · exact List.take_nil

theorem kept_sublist (config : RetentionConfig) (since : List E) :
    (config.kept since).Sublist since := by
  unfold RetentionConfig.kept
  split
  · exact List.drop_sublist _ _
  · exact List.take_sublist _ _

theorem length_kept (config : RetentionConfig) (since : List E) :
    (config.kept since).length = min config.effectiveCapacity since.length := by
  unfold RetentionConfig.kept
  split
  · unfold List.rtake
    rw [List.length_drop]
    omega
  · exact List.length_take

/-- Where there is room nothing was dropped. -/
theorem kept_of_room {since : List E} (h : (config.kept since).length < config.effectiveCapacity)
    (event : E) : config.kept (since ++ [event]) = config.kept since ++ [event] := by
  rw [length_kept] at h
  have hlen : since.length < config.effectiveCapacity := by omega
  unfold RetentionConfig.kept
  split
  · unfold List.rtake
    rw [List.length_append, List.length_singleton, Nat.sub_eq_zero_of_le hlen,
      Nat.sub_eq_zero_of_le (Nat.le_of_lt hlen)]
    rfl
  · rw [List.take_of_length_le (Nat.le_of_lt hlen), List.take_of_length_le]
    rw [List.length_append]
    exact hlen

/-- Where the queue is full the oldest event goes, or the new one. -/
theorem kept_of_full {since : List E}
    (h : ¬(config.kept since).length < config.effectiveCapacity) (event : E) :
    config.kept (since ++ [event]) = match config.dropPolicy with
      | .dropOldest => (config.kept since).tail ++ [event]
      | .dropIncoming => config.kept since := by
  rw [length_kept] at h
  have hlen : config.effectiveCapacity ≤ since.length := by omega
  have hpos := effectiveCapacity_pos config
  unfold RetentionConfig.kept
  split
  · obtain ⟨n, hn⟩ := Nat.exists_eq_succ_of_ne_zero (Nat.pos_iff_ne_zero.1 hpos)
    rw [hn, List.rtake_concat_succ]
    unfold List.rtake
    rw [List.tail_drop]
    congr 2
    omega
  · exact List.take_append_of_le_length hlen

namespace Retention

/-- What holds in every run; `first` is the file that was there. -/
structure Kept (F : LogFormat E) (config : RetentionConfig) (first : Option (List UInt8))
    (r : Retention E) : Prop where
  queue : r.state.queue = config.kept r.since
  enqueued : r.state.counters.enqueued = r.arrived.length
  counted : r.taken.length + r.state.counters.droppedQueueFull + r.state.queue.length =
    r.arrived.length
  order : ∃ before, r.arrived = before ++ r.since ∧ r.taken.Sublist before
  flushing : ∀ events, r.flushing = some events → events <:+: r.taken
  empty : r.file = none → r.pieces = []
  file : ∀ bytes, r.file = some bytes → bytes = r.pieces.flatten ∧
    (bytes.length ≤ config.rotateBytes ∨ r.pieces.length ≤ 1)
  pieces : ∀ part ∈ r.pieces, first = some part ∨
    ∃ events bytes, events <:+: r.taken ∧ body F events = .ok bytes ∧ part <+: bytes

/-- The retention of a process that starts, with the file it finds. -/
def fresh (E : Type) (first : Option (List UInt8)) : Retention E :=
  { file := first, pieces := first.toList }

theorem kept_fresh (F : LogFormat E) (config : RetentionConfig) (first : Option (List UInt8)) :
    Kept F config first (fresh E first) where
  queue := (kept_nil config).symm
  enqueued := rfl
  counted := rfl
  order := ⟨[], rfl, List.Sublist.slnil⟩
  flushing := fun _ h => absurd h (by simp [fresh])
  empty := fun h => by
    change first = none at h
    show first.toList = []
    rw [h]
    rfl
  file := fun bytes h => by
    change first = some bytes at h
    show bytes = first.toList.flatten ∧ _
    rw [h]
    exact ⟨by simp, .inr (Nat.le_refl _)⟩
  pieces := fun part hpart => .inl (by simpa [fresh] using hpart)

variable {first : Option (List UInt8)} {r r' : Retention E}

/-- An event that is valid is pushed. -/
theorem Kept.push (h : Kept F config first r) (event : E) :
    Kept F config first { r with
      state := (r.state.push config event).1
      arrived := r.arrived ++ [event], since := r.since ++ [event] } := by
  obtain ⟨before, harrived, htaken⟩ := h.order
  have hcounted := h.counted
  have henqueued := h.enqueued
  have hqueue : (r.state.push config event).1.queue = config.kept (r.since ++ [event]) ∧
      (r.state.push config event).1.counters.enqueued = r.state.counters.enqueued + 1 ∧
      (r.state.push config event).1.counters.droppedQueueFull +
          (r.state.push config event).1.queue.length =
        r.state.counters.droppedQueueFull + r.state.queue.length + 1 := by
    unfold RetentionState.push
    dsimp only
    by_cases hroom : r.state.queue.length < config.effectiveCapacity
    · rw [if_pos hroom]
      rw [h.queue] at hroom
      refine ⟨?_, rfl, ?_⟩
      · show r.state.queue ++ [event] = _
        rw [kept_of_room hroom, h.queue]
      · show _ + (r.state.queue ++ [event]).length = _
        rw [List.length_append, List.length_singleton, Nat.add_assoc]
    · rw [if_neg hroom]
      have hpos := effectiveCapacity_pos config
      have hfull := hroom
      rw [h.queue] at hfull
      have hkept := kept_of_full hfull event
      cases hp : config.dropPolicy with
      | dropOldest =>
        rw [hp] at hkept
        refine ⟨?_, rfl, ?_⟩
        · show r.state.queue.tail ++ [event] = _
          rw [hkept, h.queue]
        · show _ + 1 + (r.state.queue.tail ++ [event]).length = _
          rw [List.length_append, List.length_tail, List.length_singleton]
          omega
      | dropIncoming =>
        rw [hp] at hkept
        refine ⟨?_, rfl, ?_⟩
        · show r.state.queue = _
          rw [hkept, h.queue]
        · show _ + 1 + r.state.queue.length = _
          omega
  obtain ⟨hkept, hone, hdropped⟩ := hqueue
  refine ⟨hkept, ?_, ?_, ⟨before, ?_, htaken⟩, h.flushing, h.empty, h.file, h.pieces⟩
  · dsimp only
    rw [hone, henqueued, List.length_append]
    rfl
  · dsimp only
    rw [List.length_append, List.length_singleton]
    omega
  · dsimp only
    rw [harrived, List.append_assoc]

theorem Kept.enqueue (h : Kept F config first r) (event : E) :
    Kept F config first { r with
      state := (r.state.enqueue F config event).1
      arrived := r.arrived ++ (F.validatePayload event).toList
      since := r.since ++ (F.validatePayload event).toList } := by
  unfold RetentionState.enqueue
  cases F.validatePayload event with
  | none =>
    dsimp only [Option.toList]
    rw [List.append_nil, List.append_nil]
    exact ⟨h.queue, h.enqueued, h.counted, h.order, h.flushing, h.empty, h.file, h.pieces⟩
  | some valid => exact h.push valid

/-- Behind a drain nothing arrived. -/
theorem Kept.drained (h : Kept F config first r) : Kept F config first r.drained := by
  obtain ⟨before, harrived, htaken⟩ := h.order
  have hcounted := h.counted
  refine ⟨?_, h.enqueued, ?_, ⟨r.arrived, ?_, ?_⟩, fun events he => ?_, h.empty, h.file,
    fun part hpart => ?_⟩
  · exact (kept_nil config).symm
  · show (r.taken ++ r.state.queue).length + _ + 0 = _
    rw [List.length_append]
    show _ + _ + r.state.counters.droppedQueueFull + 0 = r.arrived.length
    omega
  · exact (List.append_nil _).symm
  · show (r.taken ++ r.state.queue).Sublist r.arrived
    rw [harrived, h.queue]
    exact htaken.append (kept_sublist config r.since)
  · exact (h.flushing events he).trans (List.prefix_append _ _).isInfix
  · refine (h.pieces part hpart).imp_right fun ⟨events, bytes, hin, hbody, hprefix⟩ => ?_
    exact ⟨events, bytes, hin.trans (List.prefix_append _ _).isInfix, hbody, hprefix⟩

/-! ## The file -/

/-- What a flush leaves alone: the queue, what arrived and what was taken. -/
structure Apart (r r' : Retention E) : Prop where
  queue : r'.state.queue = r.state.queue
  enqueued : r'.state.counters.enqueued = r.state.counters.enqueued
  dropped : r'.state.counters.droppedQueueFull = r.state.counters.droppedQueueFull
  arrived : r'.arrived = r.arrived
  since : r'.since = r.since
  taken : r'.taken = r.taken

/-- A flush keeps the rest. -/
theorem Kept.apart (h : Kept F config first r) (ha : Apart r r')
    (hflushing : r'.flushing = none) (hnone : r'.file = none → r'.pieces = [])
    (hfile : ∀ bytes, r'.file = some bytes → bytes = r'.pieces.flatten ∧
      (bytes.length ≤ config.rotateBytes ∨ r'.pieces.length ≤ 1))
    (hpieces : ∀ part ∈ r'.pieces, first = some part ∨
      ∃ events bytes, events <:+: r.taken ∧ body F events = .ok bytes ∧ part <+: bytes) :
    Kept F config first r' where
  queue := by
    rw [ha.queue, ha.since]
    exact h.queue
  enqueued := by
    rw [ha.enqueued, ha.arrived]
    exact h.enqueued
  counted := by
    rw [ha.taken, ha.dropped, ha.queue, ha.arrived]
    exact h.counted
  order := by
    rw [ha.arrived, ha.since, ha.taken]
    exact h.order
  flushing := fun events he => by
    rw [hflushing] at he
    exact absurd he (by simp)
  empty := hnone
  file := hfile
  pieces := by
    rw [ha.taken]
    exact hpieces

/-- What the file is made of, for a flush that is over. -/
def Filed (config : RetentionConfig) (r : Retention E) : Prop :=
  (r.file = none → r.pieces = []) ∧
    ∀ bytes, r.file = some bytes → bytes = r.pieces.flatten ∧
      (bytes.length ≤ config.rotateBytes ∨ r.pieces.length ≤ 1)

/-- **The write of a flush**, where it fits or the file is new. -/
theorem filed_append (hfiled : Filed config r) (bytes : List UInt8) (disk : Disk)
    (hfits : (r.file.getD []).length + bytes.length ≤ config.rotateBytes ∨ r.file = none) :
    Filed config (r.append bytes disk) ∧ Apart r (r.append bytes disk) ∧
      ∀ part ∈ (r.append bytes disk).pieces, part ∈ r.pieces ∨ part <+: bytes := by
  have hold : (r.file.getD []) = r.pieces.flatten := by
    rcases hf : r.file with - | old
    · rw [hfiled.1 hf]
      rfl
    · exact (hfiled.2 old hf).1
  -- The part that is written, whole or not.
  have honto : ∀ part, part <+: bytes →
      (r.file.getD [] ++ part = (r.pieces ++ [part]).flatten) ∧
        ((r.file.getD [] ++ part).length ≤ config.rotateBytes ∨ (r.pieces ++ [part]).length ≤ 1) := by
    intro part hpart
    refine ⟨by rw [hold]; simp, ?_⟩
    rcases hfits with hle | hnone
    · left
      have hlen := hpart.length_le
      rw [List.length_append]
      omega
    · right
      rw [hfiled.1 hnone]
      exact Nat.le_refl _
  unfold Retention.append
  split_ifs
  · exact ⟨hfiled, ⟨rfl, rfl, rfl, rfl, rfl, rfl⟩, fun part hpart => .inl hpart⟩
  · have hmem : ∀ {part new : List UInt8}, part ∈ r.pieces ++ [new] → new <+: bytes →
        part ∈ r.pieces ∨ part <+: bytes := by
      intro part new hpart hnew
      rcases List.mem_append.1 hpart with hpart | hpart
      · exact .inl hpart
      · rw [List.mem_singleton.1 hpart]
        exact .inr hnew
    dsimp only
    split
    · rename_i k hk
      refine ⟨⟨fun hn => absurd hn (Option.some_ne_none _), fun whole hw => ?_⟩, ⟨rfl, rfl, rfl, rfl, rfl, rfl⟩,
        fun part hpart => hmem hpart (List.take_prefix k bytes)⟩
      obtain rfl := Option.some.inj hw
      exact honto _ (List.take_prefix k bytes)
    · refine ⟨⟨fun hn => absurd hn (Option.some_ne_none _), fun whole hw => ?_⟩, ⟨rfl, rfl, rfl, rfl, rfl, rfl⟩,
        fun part hpart => hmem hpart List.prefix_rfl⟩
      obtain rfl := Option.some.inj hw
      exact honto _ List.prefix_rfl

/-- A rotation leaves no file. -/
theorem rotate_cases {renamed : Bool} {r₁ : Retention E} (h : r.rotate renamed = some r₁)
    (hfiled : Filed config r) :
    r₁.file = none ∧ r₁.pieces = [] ∧ Apart r r₁ := by
  unfold Retention.rotate at h
  dsimp only at h
  rcases hf : r.file with - | old
  · rw [hf] at h
    obtain rfl := Option.some.inj h
    exact ⟨rfl, hfiled.1 hf, ⟨rfl, rfl, rfl, rfl, rfl, rfl⟩⟩
  · rw [hf] at h
    dsimp only at h
    split_ifs at h
    obtain rfl := Option.some.inj h
    exact ⟨rfl, rfl, ⟨rfl, rfl, rfl, rfl, rfl, rfl⟩⟩

theorem Apart.trans {r₁ r₂ : Retention E} (h₁ : Apart r r₁) (h₂ : Apart r₁ r₂) : Apart r r₂ where
  queue := h₂.queue.trans h₁.queue
  enqueued := h₂.enqueued.trans h₁.enqueued
  dropped := h₂.dropped.trans h₁.dropped
  arrived := h₂.arrived.trans h₁.arrived
  since := h₂.since.trans h₁.since
  taken := h₂.taken.trans h₁.taken

/-- **`flush_to_file` behind its `drain`.** -/
theorem flush_spec (hfiled : Filed config r) (events : List E) (disk : Disk) :
    Filed config (r.flush F config events disk) ∧ Apart r (r.flush F config events disk) ∧
      ∀ part ∈ (r.flush F config events disk).pieces, part ∈ r.pieces ∨
        ∃ bytes, body F events = .ok bytes ∧ part <+: bytes := by
  have hself : Apart r r := ⟨rfl, rfl, rfl, rfl, rfl, rfl⟩
  unfold Retention.flush
  rcases hbody : body F events with text | bytes
  · exact ⟨hfiled, hself, fun part hpart => .inl hpart⟩
  dsimp only
  by_cases hlarge : (r.file.getD []).length + bytes.length > config.rotateBytes
  · rw [if_pos hlarge]
    rcases hrotate : r.rotate disk.renamed with - | r₁
    · exact ⟨hfiled, hself, fun part hpart => .inl hpart⟩
    · obtain ⟨hnone, hpieces, hapart⟩ := rotate_cases hrotate hfiled
      have hfiled₁ : Filed config r₁ :=
        ⟨fun _ => hpieces, fun whole hw => absurd (hnone.symm.trans hw) (by simp)⟩
      obtain ⟨hf, ha, hp⟩ := filed_append hfiled₁ bytes disk (.inr hnone)
      refine ⟨hf, hapart.trans ha, fun part hpart => ?_⟩
      rcases hp part hpart with hold | hnew
      · rw [hpieces] at hold
        exact absurd hold List.not_mem_nil
      · exact .inr ⟨bytes, rfl, hnew⟩
  · rw [if_neg hlarge]
    obtain ⟨hf, ha, hp⟩ := filed_append hfiled bytes disk (.inl (Nat.le_of_not_lt hlarge))
    refine ⟨hf, ha, fun part hpart => ?_⟩
    exact (hp part hpart).imp_right fun hnew => ⟨bytes, rfl, hnew⟩

theorem Kept.step {a : Action E} (h : Kept F config first r)
    (hs : r.step F config a = some r') : Kept F config first r' := by
  cases a with
  | enqueue event =>
    obtain rfl := Option.some.inj hs
    exact h.enqueue event
  | drain =>
    obtain rfl := Option.some.inj hs
    exact h.drained
  | flushBegins =>
    have hd := h.drained
    unfold Retention.step at hs
    dsimp only at hs
    split_ifs at hs
    · obtain rfl := Option.some.inj hs
      exact hd
    · obtain rfl := Option.some.inj hs
      refine ⟨hd.queue, hd.enqueued, hd.counted, hd.order, fun events he => ?_, hd.empty, hd.file,
        hd.pieces⟩
      obtain rfl := Option.some.inj he
      exact (List.suffix_append r.taken _).isInfix
  | flushEnds disk =>
    unfold Retention.step at hs
    dsimp only at hs
    rcases hf : r.flushing with - | events
    · rw [hf] at hs
      exact absurd hs (by simp)
    · rw [hf] at hs
      obtain rfl := Option.some.inj hs
      obtain ⟨hfiled, ha, hp⟩ := flush_spec (F := F)
        (show Filed config r from ⟨h.empty, h.file⟩) events disk
      refine h.apart ⟨ha.queue, ha.enqueued, ha.dropped, ha.arrived, ha.since, ha.taken⟩ rfl
        hfiled.1 hfiled.2 fun part hpart => ?_
      rcases hp part hpart with hold | ⟨bytes, hbody, hnew⟩
      · exact h.pieces part hold
      · exact .inr ⟨events, bytes, h.flushing events hf, hbody, hnew⟩

/-- Events of one byte, of which zero is not valid. -/
def bytes : LogFormat UInt8 where
  validatePayload event := if event = 0 then none else some event
  toVec event := .ok [event]

/-- Room for two events and a file of five bytes. -/
def small : RetentionConfig := { queueCapacity := 2, filePath := true, rotateBytes := 5 }

end Retention

end Observability

end Tensorplate
