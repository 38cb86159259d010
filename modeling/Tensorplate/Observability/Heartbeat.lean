import Mathlib.Data.List.Induction
import Mathlib.Tactic.Ring
import Tensorplate.Observability.Model.Heartbeat

/-!
# What the evaluator's reports mean

A source is reported without a heartbeat once enough whole intervals have
passed, and its recovery is to take as many heartbeats as the policy asks
for. The first holds wherever the policy's own times fit their counter. The
second holds for a single recovery heartbeat only: `evaluate` takes any
heartbeat within its window for the end of the recovery.
-/

namespace Tensorplate

namespace Observability

open HeartbeatEvaluator

variable {policy : HeartbeatPolicy} {source : InputSource} {calls : List Call}

/-- The heartbeats of a source, as they were observed. -/
def heartbeats (source : InputSource) (calls : List Call) : List ℕ :=
  calls.filterMap fun
    | .observeHeartbeat s receivedAt => if s = source then some receivedAt else none
    | _ => none

/-- When a source was first heard of. -/
def arrival (source : InputSource) (calls : List Call) : Option ℕ :=
  (calls.filterMap fun
    | .observeHeartbeat s receivedAt => if s = source then some receivedAt else none
    | .registerSource s now => if s = source then some now else none
    | .evaluate _ => none).head?

/-- The last heartbeat, or the registration where there was none. -/
def anchor (source : InputSource) (calls : List Call) : Option ℕ :=
  ((heartbeats source calls).getLast?).or (arrival source calls)

/-- The calls are made at non-decreasing instants. -/
def InOrder (calls : List Call) : Prop := (calls.map Call.instant).Pairwise (· ≤ ·)

/-- A tick evaluates right behind the heartbeats it drained: no source is
registered in between. -/
def batched : List Call → Bool
  | [] => true
  | .observeHeartbeat _ _ :: .registerSource _ _ :: _ => false
  | _ :: rest => batched rest

/-- The calls as `tick` makes them. -/
structure Made (calls : List Call) : Prop where
  inOrder : InOrder calls
  inTicks : batched calls = true

/-- The expected interval plus the grace. -/
def HeartbeatPolicy.window (policy : HeartbeatPolicy) : ℕ :=
  fromMillis policy.expectedIntervalMs + fromMillis policy.graceMs

/-- No `evaluate` behind a heartbeat finds the window expired. -/
def Unexpired (policy : HeartbeatPolicy) (source : InputSource) (calls : List Call) : Prop :=
  ∀ front back now last, calls = front ++ .evaluate now :: back →
    (heartbeats source front).getLast? = some last → now - last < policy.window

/-- Enough heartbeats came with no expired window between them. -/
def Recovered (policy : HeartbeatPolicy) (source : InputSource) (calls : List Call) : Prop :=
  ∃ front run back, calls = front ++ run ++ back ∧
    policy.recoveryHeartbeats.toNat ≤ (heartbeats source run).length ∧
    Unexpired policy source run

/-- The evaluator of a policy behind a sequence of calls. -/
def evaluatorAfter (policy : HeartbeatPolicy) (calls : List Call) : HeartbeatEvaluator :=
  HeartbeatEvaluator.calls { policy := policy } calls

/-- **What the reports are to mean.** -/
structure Meets (policy : HeartbeatPolicy) : Prop where
  /-- A source is reported without a heartbeat once the time since, less
  the grace, spans the threshold of whole intervals. -/
  missed : ∀ calls now source since, Made (calls ++ [.evaluate now]) →
    anchor source calls = some since →
    fromMillis policy.graceMs +
      policy.missedThreshold.toNat * fromMillis policy.expectedIntervalMs ≤ now - since →
    (evaluatorAfter policy calls).report (.evaluate now) source = some .noHeartbeat
  /-- And is not reported fresh again before it has recovered. -/
  recovers : ∀ before c between c' source, Made (before ++ c :: (between ++ [c'])) →
    (evaluatorAfter policy before).report c source = some .noHeartbeat →
    (evaluatorAfter policy (before ++ c :: between)).report c' source = some .fresh →
    Recovered policy source (between ++ [c'])

/-! ## One entry -/

theorem durationToU64Ms_fromMillis (ms : UInt64) : durationToU64Ms (fromMillis ms) = ms.toNat := by
  have hlt := ms.toNat_lt
  unfold durationToU64Ms fromMillis
  rw [Nat.mul_div_cancel _ (by decide)]
  omega

theorem toNat_pos {x : UInt64} (hx : x ≠ 0) : 0 < x.toNat := by
  refine Nat.pos_of_ne_zero fun hz => hx ?_
  rw [← UInt64.toNat_inj]
  simpa using hz

/-- **Enough time makes enough missed windows**, unless the count of
milliseconds overflows. -/
theorem le_missedFullWindows {elapsed m : ℕ} {expected grace : UInt64} (hx : expected ≠ 0)
    (hm : m ≤ 2 ^ 32 - 1) (hfit : grace.toNat + m * expected.toNat < 2 ^ 64)
    (h : fromMillis grace + m * fromMillis expected ≤ elapsed) :
    m ≤ missedFullWindows elapsed (fromMillis expected) (fromMillis grace) := by
  have hpos := toNat_pos hx
  have hne : fromMillis expected ≠ 0 := by
    unfold fromMillis
    omega
  have hms : grace.toNat + m * expected.toNat ≤ elapsed / 1000000 := by
    rw [Nat.le_div_iff_mul_le (by decide)]
    unfold fromMillis at h
    calc (grace.toNat + m * expected.toNat) * 1000000
        = grace.toNat * 1000000 + m * (expected.toNat * 1000000) := by ring
      _ ≤ elapsed := h
  unfold missedFullWindows
  rw [if_neg hne]
  simp only [durationToU64Ms_fromMillis]
  rw [if_neg hpos.ne']
  refine le_min ?_ hm
  rw [Nat.le_div_iff_mul_le hpos]
  unfold durationToU64Ms
  omega

/-- And too few, where it does. -/
theorem missedFullWindows_lt {elapsed m : ℕ} {expected grace : UInt64} (hx : expected ≠ 0)
    (hfit : 2 ^ 64 ≤ grace.toNat + m * expected.toNat) :
    missedFullWindows elapsed (fromMillis expected) (fromMillis grace) < m := by
  have hg := grace.toNat_lt
  have hpos := toNat_pos hx
  have hne : fromMillis expected ≠ 0 := by
    unfold fromMillis
    omega
  unfold missedFullWindows
  rw [if_neg hne]
  simp only [durationToU64Ms_fromMillis]
  rw [if_neg hpos.ne']
  refine lt_of_le_of_lt (min_le_left _ _) ?_
  rw [Nat.div_lt_iff_lt_mul hpos]
  unfold durationToU64Ms
  omega

theorem threshold_le_cap (policy : HeartbeatPolicy) :
    policy.missedThreshold.toNat ≤ policy.cap := by
  have hlt := policy.missedThreshold.toNat_lt
  unfold HeartbeatPolicy.cap
  omega

/-- The count of missed beats of an entry. -/
def HeartbeatPolicy.missed (policy : HeartbeatPolicy) (elapsed : ℕ) : ℕ :=
  min (missedFullWindows elapsed (fromMillis policy.expectedIntervalMs) (fromMillis policy.graceMs))
    policy.cap

/-! What `recompute_in_place` does, branch by branch. -/

theorem recomputeInPlace_none {entry : SourceState} (h : entry.lastHeartbeatAt = none) (now : ℕ) :
    recomputeInPlace policy entry now = { entry with
      missedCount := policy.missed (now - entry.registeredAt)
      health :=
        if policy.missed (now - entry.registeredAt) ≥ policy.missedThreshold.toNat then .noHeartbeat
        else if policy.missed (now - entry.registeredAt) > 0 then .stale
        else .noneYet } := by
  simp only [recomputeInPlace, h, HeartbeatPolicy.missed]
  rfl

theorem recomputeInPlace_inside {entry : SourceState} {last now : ℕ}
    (h : entry.lastHeartbeatAt = some last) (hw : now - last < policy.window) :
    recomputeInPlace policy entry now = { entry with health := .fresh } := by
  unfold HeartbeatPolicy.window at hw
  simp only [recomputeInPlace, h, if_pos hw]

theorem recomputeInPlace_expired {entry : SourceState} {last now : ℕ}
    (h : entry.lastHeartbeatAt = some last) (hw : policy.window ≤ now - last) :
    recomputeInPlace policy entry now = { entry with
      missedCount := policy.missed (now - last)
      consecutiveRecoveryHeartbeats := 0
      health := if policy.missed (now - last) ≥ policy.missedThreshold.toNat then .noHeartbeat
        else .stale } := by
  unfold HeartbeatPolicy.window at hw
  simp only [recomputeInPlace, h, if_neg (Nat.not_lt.2 hw), HeartbeatPolicy.missed]
  rfl

/-- `recompute_in_place` leaves the instants alone. -/
theorem recomputeInPlace_instants (policy : HeartbeatPolicy) (entry : SourceState) (now : ℕ) :
    (recomputeInPlace policy entry now).lastHeartbeatAt = entry.lastHeartbeatAt ∧
      (recomputeInPlace policy entry now).registeredAt = entry.registeredAt := by
  cases h : entry.lastHeartbeatAt with
  | none =>
    rw [recomputeInPlace_none h]
    exact ⟨h, rfl⟩
  | some last =>
    rcases Nat.lt_or_ge (now - last) policy.window with hw | hw
    · rw [recomputeInPlace_inside h hw]
      exact ⟨h, rfl⟩
    · rw [recomputeInPlace_expired h hw]
      exact ⟨h, rfl⟩

theorem observe_instants (policy : HeartbeatPolicy) (entry : SourceState) (receivedAt : ℕ) :
    (observe policy entry receivedAt).lastHeartbeatAt = some receivedAt ∧
      (observe policy entry receivedAt).registeredAt = entry.registeredAt := by
  unfold observe
  dsimp only
  split_ifs
  · exact ⟨rfl, rfl⟩
  · exact ⟨rfl, rfl⟩
  · exact ⟨rfl, rfl⟩

/-- What an entry counts its time from. -/
def SourceState.since (entry : SourceState) : ℕ :=
  entry.lastHeartbeatAt.getD entry.registeredAt

/-- **An entry is without a heartbeat** behind enough missed windows. -/
theorem health_recomputeInPlace {entry : SourceState} {now : ℕ}
    (hmissed : policy.missedThreshold.toNat ≤ policy.missed (now - entry.since))
    (hwindow : policy.window ≤ now - entry.since) :
    (recomputeInPlace policy entry now).health = .noHeartbeat := by
  unfold SourceState.since at hmissed hwindow
  cases h : entry.lastHeartbeatAt with
  | none =>
    rw [h, Option.getD_none] at hmissed
    rw [recomputeInPlace_none h]
    exact if_pos hmissed
  | some last =>
    rw [h, Option.getD_some] at hmissed hwindow
    rw [recomputeInPlace_expired h hwindow]
    exact if_pos hmissed

/-- **Only a heartbeat within its window makes an entry fresh.** -/
theorem fresh_recomputeInPlace {entry : SourceState} {now : ℕ}
    (hf : (recomputeInPlace policy entry now).health = .fresh) :
    ∃ last, entry.lastHeartbeatAt = some last ∧ now - last < policy.window := by
  cases h : entry.lastHeartbeatAt with
  | none =>
    rw [recomputeInPlace_none h] at hf
    dsimp only at hf
    split_ifs at hf
  | some last =>
    rcases Nat.lt_or_ge (now - last) policy.window with hw | hw
    · exact ⟨last, rfl, hw⟩
    · rw [recomputeInPlace_expired h hw] at hf
      dsimp only at hf
      split_ifs at hf

/-- An entry without a heartbeat has none within its window. -/
theorem expired_recomputeInPlace {entry : SourceState} {now last : ℕ}
    (hn : (recomputeInPlace policy entry now).health = .noHeartbeat)
    (h : entry.lastHeartbeatAt = some last) : policy.window ≤ now - last := by
  rcases Nat.lt_or_ge (now - last) policy.window with hw | hw
  · rw [recomputeInPlace_inside h hw] at hn
    cases hn
  · exact hw

/-! ## Histories -/

theorem evaluatorAfter_concat (calls : List Call) (c : Call) :
    evaluatorAfter policy (calls ++ [c]) = (evaluatorAfter policy calls).call c := by
  unfold evaluatorAfter HeartbeatEvaluator.calls
  rw [List.foldl_append]
  rfl

theorem policy_evaluatorAfter (policy : HeartbeatPolicy) (calls : List Call) :
    (evaluatorAfter policy calls).policy = policy := by
  induction calls using List.reverseRecOn with
  | nil => rfl
  | append_singleton calls c ih =>
    rw [evaluatorAfter_concat]
    cases c <;> exact ih

theorem heartbeats_append (xs ys : List Call) :
    heartbeats source (xs ++ ys) = heartbeats source xs ++ heartbeats source ys :=
  List.filterMap_append ..

/-- **The entry of a source says what the calls said**: its last heartbeat,
and when it was first heard of. -/
theorem state_evaluatorAfter (policy : HeartbeatPolicy) (source : InputSource)
    (calls : List Call) :
    ((evaluatorAfter policy calls).state source = none ∧ heartbeats source calls = [] ∧
        arrival source calls = none) ∨
      ∃ entry, (evaluatorAfter policy calls).state source = some entry ∧
        entry.lastHeartbeatAt = (heartbeats source calls).getLast? ∧
        arrival source calls = some entry.registeredAt := by
  induction calls using List.reverseRecOn with
  | nil => exact Or.inl ⟨rfl, rfl, rfl⟩
  | append_singleton calls c ih =>
    have hpolicy := policy_evaluatorAfter policy calls
    rw [evaluatorAfter_concat, heartbeats_append]
    unfold arrival at ih ⊢
    rw [List.filterMap_append]
    cases c with
    | evaluate now =>
      simp only [HeartbeatEvaluator.call, HeartbeatEvaluator.evaluate, heartbeats,
        List.filterMap_cons, List.filterMap_nil, List.append_nil] at ih ⊢
      rcases ih with ⟨hs, hh, ha⟩ | ⟨entry, hs, hl, ha⟩
      · exact Or.inl ⟨by rw [hs]; rfl, hh, ha⟩
      · obtain ⟨hlast, hreg⟩ := recomputeInPlace_instants policy entry now
        refine Or.inr ⟨_, by rw [hs, hpolicy]; rfl, hlast.trans hl, ?_⟩
        rw [ha, hreg]
    | registerSource s now =>
      simp only [HeartbeatEvaluator.call, registerSource, HeartbeatEvaluator.insert, heartbeats,
        List.filterMap_cons, List.filterMap_nil, List.append_nil] at ih ⊢
      by_cases hsource : source = s
      · subst hsource
        rcases ih with ⟨hs, hh, ha⟩ | ⟨entry, hs, hl, ha⟩
        · refine Or.inr ⟨{ registeredAt := now }, by rw [if_pos rfl, hs]; rfl, ?_, ?_⟩
          · rw [hh]
            rfl
          · rw [if_pos rfl, List.head?_append, ha]
            rfl
        · refine Or.inr ⟨entry, by rw [if_pos rfl, hs]; rfl, hl, ?_⟩
          rw [List.head?_append, ha]
          rfl
      · rw [if_neg hsource, if_neg (Ne.symm hsource)]
        simp only [List.append_nil]
        exact ih
    | observeHeartbeat s receivedAt =>
      simp only [HeartbeatEvaluator.call, observeHeartbeat, HeartbeatEvaluator.insert, heartbeats,
        List.filterMap_cons, List.filterMap_nil] at ih ⊢
      by_cases hsource : source = s
      · subst hsource
        rw [if_pos rfl, if_pos rfl]
        rcases ih with ⟨hs, hh, ha⟩ | ⟨entry, hs, hl, ha⟩
        · obtain ⟨hlast, hreg⟩ := observe_instants policy
            { registeredAt := receivedAt } receivedAt
          refine Or.inr ⟨_, by rw [hs, hpolicy], ?_, ?_⟩
          · rw [Option.getD_none, hlast, List.getLast?_concat]
          · rw [List.head?_append, ha, Option.getD_none, hreg]
            rfl
        · obtain ⟨hlast, hreg⟩ := observe_instants policy entry receivedAt
          refine Or.inr ⟨_, by rw [hs, hpolicy], ?_, ?_⟩
          · rw [Option.getD_some, hlast, List.getLast?_concat]
          · rw [List.head?_append, ha, Option.getD_some, hreg]
            rfl
      · rw [if_neg hsource, if_neg (Ne.symm hsource)]
        simp only [List.append_nil]
        exact ih

/-- An entry counts its time from the anchor. -/
theorem anchor_evaluatorAfter (policy : HeartbeatPolicy) {since : ℕ} (h : anchor source calls = some since) :
    ∃ entry, (evaluatorAfter policy calls).state source = some entry ∧ entry.since = since := by
  unfold anchor at h
  rcases state_evaluatorAfter policy source calls with ⟨-, hh, ha⟩ |
    ⟨entry, hs, hl, ha⟩
  · rw [hh, ha] at h
    cases h
  · refine ⟨entry, hs, ?_⟩
    unfold SourceState.since
    rw [← hl, ha] at h
    cases hlast : entry.lastHeartbeatAt with
    | none =>
      rw [hlast] at h
      exact Option.some.inj h
    | some last =>
      rw [hlast] at h
      exact Option.some.inj h

theorem report_evaluate {entry : SourceState} {now : ℕ}
    (h : (evaluatorAfter policy calls).state source = some entry) :
    (evaluatorAfter policy calls).report (.evaluate now) source =
      some (recomputeInPlace policy entry now).health := by
  have hpolicy := policy_evaluatorAfter policy calls
  simp only [HeartbeatEvaluator.report, HeartbeatEvaluator.call, HeartbeatEvaluator.evaluate, h,
    hpolicy, Option.map_some]

/-! ## Missed heartbeats -/

/-- **A source that missed enough is reported so**, where the policy's
times fit. -/
theorem report_missed (hx : policy.expectedIntervalMs ≠ 0) (hm : policy.missedThreshold ≠ 0)
    (hfit : policy.graceMs.toNat +
      policy.missedThreshold.toNat * policy.expectedIntervalMs.toNat < 2 ^ 64) {now since : ℕ}
    (ha : anchor source calls = some since)
    (hlong : fromMillis policy.graceMs +
      policy.missedThreshold.toNat * fromMillis policy.expectedIntervalMs ≤ now - since) :
    (evaluatorAfter policy calls).report (.evaluate now) source = some .noHeartbeat := by
  obtain ⟨entry, hs, rfl⟩ := anchor_evaluatorAfter policy ha
  have hlt := policy.missedThreshold.toNat_lt
  have hmissed := le_missedFullWindows hx (by omega) hfit hlong
  have hpos : 1 ≤ policy.missedThreshold.toNat := by
    refine Nat.pos_of_ne_zero fun hz => hm ?_
    rw [← UInt32.toNat_inj]
    simpa using hz
  have hwindow : policy.window ≤ now - entry.since := by
    refine le_trans ?_ hlong
    unfold HeartbeatPolicy.window
    have := Nat.mul_le_mul_right (fromMillis policy.expectedIntervalMs) hpos
    omega
  rw [report_evaluate hs]
  exact congrArg some (health_recomputeInPlace (le_min hmissed (threshold_le_cap policy)) hwindow)

/-- A source whose threshold overflows the counter is never reported so
before its first heartbeat. -/
theorem report_unmissed (hx : policy.expectedIntervalMs ≠ 0)
    (hfit : 2 ^ 64 ≤ policy.graceMs.toNat +
      policy.missedThreshold.toNat * policy.expectedIntervalMs.toNat) (now : ℕ) :
    (evaluatorAfter policy [.registerSource source 0]).report (.evaluate now) source ≠
      some .noHeartbeat := by
  have hs : (evaluatorAfter policy [.registerSource source 0]).state source =
      some { registeredAt := 0 } := if_pos rfl
  have hlt : missedFullWindows now _ _ < _ := missedFullWindows_lt hx hfit
  rw [report_evaluate hs, recomputeInPlace_none rfl]
  intro h
  have hh := Option.some.inj h
  have hmin : policy.missed now < policy.missedThreshold.toNat :=
    lt_of_le_of_lt (min_le_left _ _) hlt
  dsimp only at hh
  rw [Nat.sub_zero, if_neg (Nat.not_le.2 hmin)] at hh
  split_ifs at hh

/-! ## Recovery -/

/-- No heartbeat of the source is among the calls. -/
theorem heartbeats_eq_nil_or (source : InputSource) (seg : List Call) :
    heartbeats source seg = [] ∨ ∃ front receivedAt back,
      seg = front ++ .observeHeartbeat source receivedAt :: back := by
  induction seg with
  | nil => exact Or.inl rfl
  | cons c rest ih =>
    rcases ih with hnil | ⟨front, receivedAt, back, rfl⟩
    · cases c with
      | observeHeartbeat s receivedAt =>
        by_cases hs : s = source
        · subst hs
          exact Or.inr ⟨[], receivedAt, rest, rfl⟩
        · left
          unfold heartbeats at hnil ⊢
          rw [List.filterMap_cons]
          simp only [if_neg hs]
          exact hnil
      | registerSource s now => exact Or.inl hnil
      | evaluate now => exact Or.inl hnil
    · exact Or.inr ⟨c :: front, receivedAt, back, rfl⟩

/-- One heartbeat is a recovery where one is asked for. -/
theorem recovered_of_mem (hn : policy.recoveryHeartbeats.toNat = 1) {seg : List Call}
    (h : heartbeats source seg ≠ []) : Recovered policy source seg := by
  rcases heartbeats_eq_nil_or source seg with hnil | ⟨front, receivedAt, back, rfl⟩
  · exact absurd hnil h
  · refine ⟨front, [.observeHeartbeat source receivedAt], back, by simp, ?_, ?_⟩
    · rw [hn]
      simp [heartbeats]
    · intro x y now last heq _
      rcases x with _ | ⟨_, _ | ⟨_, _⟩⟩ <;> cases heq

/-- With one recovery heartbeat asked for, a heartbeat is reported fresh. -/
theorem report_observe (hn : policy.recoveryHeartbeats.toNat = 1) {s : InputSource} {receivedAt : ℕ}
    {health : HeartbeatHealth}
    (h : (evaluatorAfter policy calls).report (.observeHeartbeat s receivedAt) source =
      some health) : health = .fresh := by
  have hpolicy := policy_evaluatorAfter policy calls
  simp only [HeartbeatEvaluator.report, HeartbeatEvaluator.call, observeHeartbeat,
    HeartbeatEvaluator.insert] at h
  split_ifs at h with hs hs'
  · obtain rfl := Option.some.inj h
    rw [hpolicy]
    unfold observe
    dsimp only
    split_ifs with hno hcount
    · rfl
    · exfalso
      rw [hn] at hcount
      omega
    · rfl
  · exact absurd hs.symm hs'

/-- **An `evaluate` in the window has seen a heartbeat since.** -/
theorem heartbeats_of_fresh (hn : policy.recoveryHeartbeats.toNat = 1) {before between : List Call}
    {c c' : Call} (hord : InOrder (before ++ c :: (between ++ [c'])))
    (hno : (evaluatorAfter policy before).report c source = some .noHeartbeat)
    (hfresh : (evaluatorAfter policy (before ++ c :: between)).report c' source = some .fresh) :
    heartbeats source (between ++ [c']) ≠ [] := by
  intro hnil
  rw [heartbeats_append, List.append_eq_nil_iff] at hnil
  cases c with
  | registerSource s now => cases hno
  | observeHeartbeat s receivedAt => cases report_observe hn hno
  | evaluate now =>
    cases c' with
    | registerSource s now' => cases hfresh
    | observeHeartbeat s receivedAt =>
      unfold HeartbeatEvaluator.report at hfresh
      dsimp only at hfresh
      split_ifs at hfresh with hs
      subst hs
      have := hnil.2
      simp [heartbeats] at this
    | evaluate now' =>
      rcases state_evaluatorAfter policy source before with ⟨hs, -⟩ |
        ⟨entry, hs, hl, ha⟩
      · simp only [HeartbeatEvaluator.report, HeartbeatEvaluator.call,
          HeartbeatEvaluator.evaluate, hs, Option.map_none] at hno
        cases hno
      · rw [report_evaluate hs] at hno
        -- The last heartbeat is the same at both evaluations.
        have hsame : heartbeats source (before ++ .evaluate now :: between) =
            heartbeats source before := by
          rw [heartbeats_append]
          have : heartbeats source (.evaluate now :: between) = heartbeats source between := rfl
          rw [this, hnil.1, List.append_nil]
        rcases state_evaluatorAfter policy source
            (before ++ .evaluate now :: between) with ⟨hs', -⟩ | ⟨entry', hs', hl', -⟩
        · simp only [HeartbeatEvaluator.report, HeartbeatEvaluator.call,
            HeartbeatEvaluator.evaluate, hs', Option.map_none] at hfresh
          cases hfresh
        · rw [report_evaluate hs'] at hfresh
          obtain ⟨last, hlast, hin⟩ := fresh_recomputeInPlace (Option.some.inj hfresh)
          have hlast₀ : entry.lastHeartbeatAt = some last := by
            rw [hl, ← hsame, ← hl']
            exact hlast
          have hout := expired_recomputeInPlace (Option.some.inj hno) hlast₀
          have hle : now ≤ now' := by
            unfold InOrder at hord
            rw [List.map_append, List.pairwise_append] at hord
            have hcons := hord.2.1
            rw [List.map_cons, List.pairwise_cons] at hcons
            exact hcons.1 now' (by simp [Call.instant])
          omega

/-- The instant by which a source registered at zero has missed enough. -/
def HeartbeatPolicy.overdue (policy : HeartbeatPolicy) : ℕ :=
  fromMillis policy.graceMs +
    policy.missedThreshold.toNat * fromMillis policy.expectedIntervalMs

theorem inOrder_single (source : InputSource) (now : ℕ) :
    InOrder ([.registerSource source 0] ++ [.evaluate now]) := by
  simp [InOrder, Call.instant]

theorem Meets.overdue (h : Meets policy) (source : InputSource) :
    (evaluatorAfter policy [.registerSource source 0]).report (.evaluate policy.overdue) source =
      some .noHeartbeat := by
  refine h.missed [.registerSource source 0] policy.overdue source 0 ?_ ?_ ?_
  · exact ⟨inOrder_single source _, rfl⟩
  · simp [anchor, heartbeats, arrival]
  · rw [Nat.sub_zero, HeartbeatPolicy.overdue]

/-- **One heartbeat is reported fresh**: the `evaluate` of its tick finds
it within its window. -/
theorem report_cutShort (hx : policy.expectedIntervalMs ≠ 0) (source : InputSource) (now : ℕ) :
    (evaluatorAfter policy [.registerSource source 0, .evaluate now,
      .observeHeartbeat source now]).report (.evaluate now) source = some .fresh := by
  have hlast : (heartbeats source [.registerSource source 0, .evaluate now,
      .observeHeartbeat source now]).getLast? = some now := by
    simp [heartbeats]
  rcases state_evaluatorAfter policy source [.registerSource source 0, .evaluate now,
      .observeHeartbeat source now] with ⟨-, hh, -⟩ | ⟨entry, hs, hl, -⟩
  · rw [hh] at hlast
    cases hlast
  · have hpos := toNat_pos hx
    have hwindow : now - now < policy.window := by
      unfold HeartbeatPolicy.window fromMillis
      omega
    rw [report_evaluate hs, recomputeInPlace_inside (hl.trans hlast) hwindow]

theorem heartbeats_length_le {front run back seg : List Call} (h : seg = front ++ run ++ back) :
    (heartbeats source run).length ≤ (heartbeats source seg).length := by
  rw [h, heartbeats_append, heartbeats_append, List.length_append, List.length_append]
  omega

theorem inOrder_cutShort (source : InputSource) (now : ℕ) :
    InOrder ([.registerSource source 0] ++ .evaluate now ::
      ([.observeHeartbeat source now] ++ [.evaluate now])) := by
  simp [InOrder, Call.instant]

theorem heartbeats_single (source : InputSource) (now : ℕ) :
    heartbeats source ([.observeHeartbeat source now] ++ [.evaluate now]) = [now] := by
  simp [heartbeats]

/-- So no more than one may be asked for. -/
theorem Meets.cutShort (h : Meets policy) (hx : policy.expectedIntervalMs ≠ 0)
    (source : InputSource) : policy.recoveryHeartbeats.toNat ≤ 1 := by
  obtain ⟨front, run, back, heq, hn, -⟩ := h.recovers [.registerSource source 0]
    (.evaluate policy.overdue) [.observeHeartbeat source policy.overdue]
    (.evaluate policy.overdue) source ⟨inOrder_cutShort source _, rfl⟩ (h.overdue source)
    (report_cutShort hx source policy.overdue)
  have hle : (heartbeats source run).length ≤ _ := heartbeats_length_le heq
  rw [heartbeats_single] at hle
  exact hn.trans hle

/-- **The reports mean what they are to mean exactly where one recovery
heartbeat is asked for** and the time to the threshold fits its counter of
milliseconds. -/
theorem reports_iff (hvalid : validateHeartbeat policy = .ok ()) :
    Meets policy ↔ policy.recoveryHeartbeats.toNat = 1 ∧
      policy.graceMs.toNat + policy.missedThreshold.toNat * policy.expectedIntervalMs.toNat <
        2 ^ 64 := by
  obtain ⟨hx, hm, hr⟩ : policy.expectedIntervalMs ≠ 0 ∧ policy.missedThreshold ≠ 0 ∧
      policy.recoveryHeartbeats ≠ 0 := by
    unfold validateHeartbeat at hvalid
    split_ifs at hvalid with h₁ h₂ h₃
    exact ⟨h₁, h₂, h₃⟩
  constructor
  · intro h
    have hfit : policy.graceMs.toNat +
        policy.missedThreshold.toNat * policy.expectedIntervalMs.toNat < 2 ^ 64 := by
      by_contra hbig
      exact report_unmissed hx (Nat.not_lt.1 hbig) _ (h.overdue .internal)
    refine ⟨?_, hfit⟩
    have hrec := h.cutShort hx .internal
    have hpos : policy.recoveryHeartbeats.toNat ≠ 0 := by
      intro hz
      refine hr ?_
      rw [← UInt32.toNat_inj]
      simpa using hz
    omega
  · rintro ⟨hn, hfit⟩
    refine ⟨fun calls now source since _ ha hlong => report_missed hx hm hfit ha hlong, ?_⟩
    intro before c between c' source hord hno hfresh
    exact recovered_of_mem hn (heartbeats_of_fresh hn hord.inOrder hno hfresh)

/-- The defaults ask for one recovery heartbeat. -/
theorem reports_iff_default : validateHeartbeat {} = .ok () ∧ Meets {} :=
  ⟨rfl, (reports_iff rfl).2 (by decide)⟩

/-- **A recovery cut short.** A policy that asks for two heartbeats, and a
source that is reported fresh behind one. -/
theorem recovery_cut_short : validateHeartbeat { recoveryHeartbeats := 2 } = .ok () ∧
    ¬ Meets { recoveryHeartbeats := 2 } := by
  refine ⟨rfl, fun h => ?_⟩
  have hle := h.cutShort (by decide) .servingWorker
  exact absurd hle (by decide)

end Observability

end Tensorplate
