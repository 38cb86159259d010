import Mathlib.Data.List.Basic
import Mathlib.Tactic.Common
import Tensorplate.Supervision.Model.Policy

/-!
# The restart law, over whole histories

A history lists the calls made on a `BackoffScheduler`, the newest first.
`era` are the failures since the last counter reset as the policy means it:
a `reset`, or a failure that ends a ready uptime of `stable_reset_ms` no
other failure interrupted. `Lawful` is what the policy promises of the
answer to one failure, and `lawful_iff` says which histories it holds on:
`on_failure` leaves `last_ready_at` standing, so every failure from
`stable_reset_ms` after the last ready on has to be the first one after it.
-/

namespace Tensorplate

namespace Supervision

/-! ## What the policy means -/

/-- The `on_ready` whose uptime no failure has ended. -/
def readyFor : List Call → Option ℕ
  | [] => none
  | .onReady t :: _ => some t
  | .onFailure _ _ :: _ => none
  | .reset :: h => readyFor h

/-- A failure at `t` ends an uninterrupted ready uptime long enough to
reset the counters. -/
def EndsStable (cfg : BackoffConfig) (h : List Call) (t : ℕ) : Prop :=
  ∃ r, readyFor h = some r ∧ fromMillis cfg.stableResetMs ≤ t - r

instance (cfg : BackoffConfig) (h : List Call) (t : ℕ) : Decidable (EndsStable cfg h t) :=
  match hr : readyFor h with
  | none => isFalse fun ⟨_, he, _⟩ => by cases hr.symm.trans he
  | some r =>
    decidable_of_iff (fromMillis cfg.stableResetMs ≤ t - r)
      ⟨fun hle => ⟨r, hr, hle⟩, fun ⟨_, he, hle⟩ => by cases hr.symm.trans he; exact hle⟩

/-- The failures since the last counter reset, oldest first. A failure that
resets the counters is the first one counted after it. -/
def era (cfg : BackoffConfig) : List Call → List ℕ
  | [] => []
  | .onReady _ :: h => era cfg h
  | .onFailure t _ :: h => (if EndsStable cfg h t then [] else era cfg h) ++ [t]
  | .reset :: _ => []

/-- The answer to a failure after a history. -/
def answer (p : RestartPolicy) (h : List Call) (t : ℕ) (cls : FailureClass) : BackoffDecision :=
  ((BackoffScheduler.after p h).onFailure t cls).2

/-- The last delay answered since the last counter reset. -/
def lastDelay (p : RestartPolicy) : List Call → Option ℕ
  | [] => none
  | .onReady _ :: h => lastDelay p h
  | .onFailure t cls :: h =>
    match answer p h t cls with
    | .restart _ delay => some delay
    | _ => if EndsStable p.backoff h t then none else lastDelay p h
  | .reset :: _ => none

/-- The calls of a history come at non-decreasing times. -/
def Timed (h : List Call) : Prop := (h.filterMap Call.time).Pairwise (· ≥ ·)

instance (h : List Call) : Decidable (Timed h) :=
  inferInstanceAs (Decidable (List.Pairwise _ _))

/-- What the policy promises of the answer to a failure at `t` after `h`. -/
structure Lawful (p : RestartPolicy) (h : List Call) (t : ℕ) (cls : FailureClass) : Prop where
  /-- The crash loop is declared at the threshold, counted over the window. -/
  crash : (answer p h t cls).isCrashLoop = true ↔ p.backoff.threshold.toNat ≤
    ((era p.backoff (.onFailure t cls :: h)).filter
      (t - fromMillis p.backoff.windowMs ≤ ·)).length
  /-- Short of it the worker is restarted after a delay within the bounds,
  the initial one first and never a shorter one than the one before. -/
  restart : (answer p h t cls).isCrashLoop = false → ∃ at' delay,
    answer p h t cls = .restart at' delay ∧
    fromMillis p.backoff.initialDelayMs ≤ delay ∧ delay ≤ fromMillis p.backoff.maxDelayMs ∧
    (era p.backoff (.onFailure t cls :: h) = [t] → delay = fromMillis p.backoff.initialDelayMs) ∧
    (¬ EndsStable p.backoff h t → ∀ d, lastDelay p h = some d → d ≤ delay)
  /-- The counters are cleared only where a stable uptime ends. -/
  cleared : (BackoffScheduler.after p h).maybeResetAfterStableReady t ≠ .after p h →
    EndsStable p.backoff h t
  /-- A worker that never becomes ready again is a crash loop once it has
  failed `threshold` times in one window. -/
  down : ∀ fs h', h = fs ++ h' →
    (∀ c ∈ fs, ∃ u cls', c = .onFailure u cls' ∧ t - fromMillis p.backoff.windowMs ≤ u) →
    p.backoff.threshold.toNat ≤ fs.length + 1 → (answer p h t cls).isCrashLoop = true

/-- Every failure of a history is answered as the policy promises. -/
def Obeys (p : RestartPolicy) (h : List Call) : Prop :=
  ∀ t cls h', .onFailure t cls :: h' <:+ h → Lawful p h' t cls

/-- The last `on_ready` that no `reset` has followed, failures or not. -/
def lastReady : List Call → Option ℕ
  | [] => none
  | .onReady t :: _ => some t
  | .onFailure _ _ :: h => lastReady h
  | .reset :: _ => none

/-- Every failure that comes `stable_reset_ms` or longer after the last
ready is the first failure after it. -/
def FirstAfterReady (p : RestartPolicy) (h : List Call) : Prop :=
  ∀ t cls h', .onFailure t cls :: h' <:+ h → ∀ r, lastReady h' = some r →
    fromMillis p.backoff.stableResetMs ≤ t - r → readyFor h' = some r

/-! ## Delays -/

theorem toNat_max (a b : UInt64) : (max a b).toNat = max a.toNat b.toNat := by
  have h : max a b = if a ≤ b then b else a := rfl
  rw [h]
  split_ifs with hab
  · exact (max_eq_right (UInt64.le_iff_toNat_le.1 hab)).symm
  · exact (max_eq_left (Nat.le_of_not_le fun hle => hab (UInt64.le_iff_toNat_le.2 hle))).symm

theorem toNat_min (a b : UInt64) : (min a b).toNat = min a.toNat b.toNat := by
  have h : min a b = if a ≤ b then a else b := rfl
  rw [h]
  split_ifs with hab
  · exact (min_eq_left (UInt64.le_iff_toNat_le.1 hab)).symm
  · exact (min_eq_right (Nat.le_of_not_le fun hle => hab (UInt64.le_iff_toNat_le.2 hle))).symm

/-- What a validated backoff says of its settings. -/
structure RestartPolicy.Sound (p : RestartPolicy) : Prop where
  kind : p.kind = .boundedBackoff
  grows : 100 ≤ p.backoff.multiplierHundredths.toNat
  ordered : p.backoff.initialDelayMs.toNat ≤ p.backoff.maxDelayMs.toNat

theorem RestartPolicy.sound_of_validate {p : RestartPolicy} (hk : p.kind = .boundedBackoff)
    (hv : p.validate = .ok ()) : p.Sound := by
  unfold RestartPolicy.validate at hv
  rw [hk] at hv
  dsimp only at hv
  split_ifs at hv with h1 h2 h3
  refine ⟨hk, ?_, UInt64.le_iff_toNat_le.1 (UInt64.not_lt.1 h3)⟩
  have := UInt32.le_iff_toNat_le.1 (UInt32.not_lt.1 h2)
  simpa using this

namespace BackoffScheduler

variable {p : RestartPolicy} {s : BackoffScheduler}

/-- The delay before it is held between the bounds. -/
def baseDelayMs (s : BackoffScheduler) : UInt64 :=
  match s.lastAttempt with
  | some _ =>
    if min (s.currentDelayMs.toNat * s.cfg.multiplierHundredths.toNat) (2 ^ 128 - 1) / 100 < 2 ^ 64
    then UInt64.ofNat
      (min (s.currentDelayMs.toNat * s.cfg.multiplierHundredths.toNat) (2 ^ 128 - 1) / 100)
    else s.cfg.maxDelayMs
  | none => s.cfg.initialDelayMs

theorem toNat_nextDelayMs (s : BackoffScheduler) : s.nextDelayMs.toNat =
    max (min s.baseDelayMs.toNat s.cfg.maxDelayMs.toNat) s.cfg.initialDelayMs.toNat := by
  have h : s.nextDelayMs = max (min s.baseDelayMs s.cfg.maxDelayMs) s.cfg.initialDelayMs := rfl
  rw [h, toNat_max, toNat_min]

theorem nextDelayMs_bounds (hp : s.policy.Sound) :
    s.cfg.initialDelayMs.toNat ≤ s.nextDelayMs.toNat ∧
      s.nextDelayMs.toNat ≤ s.cfg.maxDelayMs.toNat := by
  have ho : s.cfg.initialDelayMs.toNat ≤ s.cfg.maxDelayMs.toNat := hp.ordered
  rw [toNat_nextDelayMs]
  omega

theorem nextDelayMs_first (hp : s.policy.Sound) (hl : s.lastAttempt = none) :
    s.nextDelayMs.toNat = s.cfg.initialDelayMs.toNat := by
  have ho : s.cfg.initialDelayMs.toNat ≤ s.cfg.maxDelayMs.toNat := hp.ordered
  have hb : s.baseDelayMs = s.cfg.initialDelayMs := by
    unfold baseDelayMs
    rw [hl]
  rw [toNat_nextDelayMs, hb]
  omega

/-- The delay never shrinks: the multiplier is at least one and the
computation has room for the product. -/
theorem le_nextDelayMs {u : ℕ} (hp : s.policy.Sound) (hl : s.lastAttempt = some u)
    (hc : s.currentDelayMs.toNat ≤ s.cfg.maxDelayMs.toNat) :
    s.currentDelayMs.toNat ≤ s.nextDelayMs.toNat := by
  have hroom : s.currentDelayMs.toNat * s.cfg.multiplierHundredths.toNat ≤ 2 ^ 128 - 1 := by
    have h1 := s.currentDelayMs.toNat_lt
    have h2 := s.cfg.multiplierHundredths.toNat_lt
    have h3 := Nat.mul_le_mul (Nat.le_of_lt h1) (Nat.le_of_lt h2)
    omega
  have hgrow : s.currentDelayMs.toNat ≤
      s.currentDelayMs.toNat * s.cfg.multiplierHundredths.toNat / 100 := by
    rw [Nat.le_div_iff_mul_le (by omega)]
    exact Nat.mul_le_mul_left _ hp.grows
  have hbase : s.currentDelayMs.toNat ≤ s.baseDelayMs.toNat := by
    unfold baseDelayMs
    rw [hl]
    dsimp only
    rw [min_eq_left hroom]
    split_ifs with hlt
    · rw [UInt64.toNat_ofNat_of_lt' hlt]
      exact hgrow
    · exact hc
  rw [toNat_nextDelayMs]
  omega

/-! ## The code's own clearing -/

@[simp] theorem call_policy (s : BackoffScheduler) (c : Call) : (s.call c).policy = s.policy := by
  cases c with
  | onReady now => rfl
  | reset => rfl
  | onFailure now cls =>
    have hm : (s.maybeResetAfterStableReady now).policy = s.policy := by
      unfold maybeResetAfterStableReady
      split
      · rfl
      · split_ifs <;> rfl
    have hr : (s.record now cls).policy = s.policy := hm
    show (s.onFailure now cls).1.policy = s.policy
    unfold onFailure
    cases s.policy.kind with
    | disabled => rfl
    | boundedBackoff =>
      dsimp only
      split_ifs
      · exact hr
      · exact hr

@[simp] theorem after_policy (p : RestartPolicy) (h : List Call) : (after p h).policy = p := by
  induction h with
  | nil => rfl
  | cons c h ih => rw [after, call_policy, ih]

/-- The window cut and the failure added. -/
def pushed (s : BackoffScheduler) (t : ℕ) : BackoffScheduler :=
  { s.pruneWindow t with failures := (s.pruneWindow t).failures ++ [t] }

/-- Every class weighs one entry. -/
theorem record_eq (s : BackoffScheduler) (t : ℕ) (cls : FailureClass) :
    s.record t cls = (s.maybeResetAfterStableReady t).pushed t := by
  cases cls <;> rfl

theorem maybeReset_lastReadyAt (s : BackoffScheduler) (t : ℕ) :
    (s.maybeResetAfterStableReady t).lastReadyAt = s.lastReadyAt := by
  unfold maybeResetAfterStableReady
  split
  · rfl
  · split_ifs <;> rfl

theorem maybeReset_policy (s : BackoffScheduler) (t : ℕ) :
    (s.maybeResetAfterStableReady t).policy = s.policy := by
  unfold maybeResetAfterStableReady
  split
  · rfl
  · split_ifs <;> rfl

/-- What `on_failure` does under a bounded backoff. -/
theorem onFailure_cases (hk : s.policy.kind = .boundedBackoff) (t : ℕ) (cls : FailureClass) :
    ((s.record t cls).isAtThreshold = true ∧ (s.onFailure t cls).1 = s.record t cls ∧
      ∃ reason, (s.onFailure t cls).2 = .enterCrashLoop reason) ∨
    ((s.record t cls).isAtThreshold = false ∧
      (s.onFailure t cls).1 = { s.record t cls with
        currentDelayMs := (s.record t cls).nextDelayMs, lastAttempt := some t } ∧
      (s.onFailure t cls).2 = .restart (addOrStay t (fromMillis (s.record t cls).nextDelayMs))
        (fromMillis (s.record t cls).nextDelayMs)) := by
  unfold onFailure
  rw [hk]
  dsimp only
  cases hr : (s.record t cls).isAtThreshold with
  | true => exact .inl ⟨rfl, rfl, _, rfl⟩
  | false => exact .inr ⟨rfl, rfl, rfl⟩

/-- A failure is always kept: `on_failure` records it last. -/
theorem onFailure_failures_ne (hk : s.policy.kind = .boundedBackoff) (t : ℕ) (cls : FailureClass) :
    (s.onFailure t cls).1.failures ≠ [] := by
  have hr : (s.record t cls).failures ≠ [] := by
    rw [record_eq]
    exact List.append_ne_nil_of_right_ne_nil _ (List.cons_ne_nil _ _)
  obtain ⟨-, he, -⟩ | ⟨-, he, -⟩ := onFailure_cases hk t cls
  · rw [he]
    exact hr
  · rw [he]
    exact hr

theorem onFailure_lastReadyAt (s : BackoffScheduler) (t : ℕ) (cls : FailureClass) :
    (s.onFailure t cls).1.lastReadyAt = s.lastReadyAt := by
  have hr : (s.record t cls).lastReadyAt = s.lastReadyAt := by
    rw [record_eq]
    exact maybeReset_lastReadyAt s t
  cases hk : s.policy.kind with
  | disabled =>
    unfold onFailure
    rw [hk]
  | boundedBackoff =>
    obtain ⟨-, he, -⟩ | ⟨-, he, -⟩ := onFailure_cases hk t cls
    · rw [he]
      exact hr
    · rw [he]
      exact hr

/-- `last_ready_at` outlives the failures: nothing but a `reset` or the
next ready takes it away. -/
theorem after_lastReadyAt (p : RestartPolicy) (h : List Call) :
    (after p h).lastReadyAt = lastReady h := by
  induction h with
  | nil => rfl
  | cons c h ih =>
    cases c with
    | onReady now => rfl
    | reset => rfl
    | onFailure now cls => exact (onFailure_lastReadyAt _ _ _).trans ih

end BackoffScheduler

/-! ## The counters against the era -/

/-- The scheduler's counters `s` agree with the failures `E` and the last
delay `D` since the last counter reset, as far as a failure at or after
every instant of `T` can tell. -/
structure Tracks (p : RestartPolicy) (E : List ℕ) (D : Option ℕ) (T : List ℕ)
    (s : BackoffScheduler) : Prop where
  kept : s.failures.Sublist E
  window : ∀ t, (∀ u ∈ T, u ≤ t) →
    s.failures.filter (t - fromMillis p.backoff.windowMs ≤ ·) =
      E.filter (t - fromMillis p.backoff.windowMs ≤ ·)
  attempt : s.lastAttempt = none ↔ D = none
  delay : ∀ d, D = some d → d = fromMillis s.currentDelayMs
  capped : s.currentDelayMs.toNat ≤ p.backoff.maxDelayMs.toNat

theorem dropWhile_eq_filter {l : List ℕ} (h : l.Pairwise (· ≤ ·)) (w t : ℕ) (ht : ∀ u ∈ l, u ≤ t) :
    l.dropWhile (fun u => w < t - u) = l.filter (t - w ≤ ·) := by
  induction l with
  | nil => rfl
  | cons a l ih =>
    obtain ⟨ha, hl⟩ := List.pairwise_cons.1 h
    have hat : a ≤ t := ht a (List.mem_cons_self ..)
    by_cases hw : w < t - a
    · rw [List.dropWhile_cons_of_pos (by simpa using hw),
        List.filter_cons_of_neg (by simp only [decide_eq_true_eq]; omega)]
      exact ih hl fun u hu => ht u (List.mem_cons_of_mem _ hu)
    · rw [List.dropWhile_cons_of_neg (by simpa using hw)]
      refine (List.filter_eq_self.2 fun u hu => ?_).symm
      have hau : a ≤ u := by
        rcases List.mem_cons.1 hu with rfl | hu
        · exact le_refl _
        · exact ha u hu
      simp only [decide_eq_true_eq]
      omega

namespace Tracks

variable {p : RestartPolicy} {E : List ℕ} {D : Option ℕ} {T : List ℕ} {s : BackoffScheduler}

/-- The failures the window keeps are those of the era it covers. -/
theorem pushed_failures (h : Tracks p E D T s) (hp : s.policy = p) (hE : E.Pairwise (· ≤ ·))
    {t : ℕ} (hEt : ∀ u ∈ E, u ≤ t) (hT : ∀ u ∈ T, u ≤ t) :
    (s.pushed t).failures = (E ++ [t]).filter (t - fromMillis p.backoff.windowMs ≤ ·) := by
  have hd : s.failures.dropWhile (fun u => fromMillis s.cfg.windowMs < t - u) =
      s.failures.filter (t - fromMillis p.backoff.windowMs ≤ ·) := by
    rw [show s.cfg = p.backoff from congrArg RestartPolicy.backoff hp]
    exact dropWhile_eq_filter (hE.sublist h.kept) _ _ fun u hu => hEt u (h.kept.subset hu)
  have ht : [t].filter (t - fromMillis p.backoff.windowMs ≤ ·) = [t] := by
    rw [List.filter_cons_of_pos (by simp only [decide_eq_true_eq]; omega)]
    rfl
  rw [List.filter_append, ht, ← h.window t hT, ← hd]
  rfl

/-- Recording a failure keeps the counters in step with the era. -/
theorem pushed (h : Tracks p E D T s) (hp : s.policy = p) (hE : E.Pairwise (· ≤ ·))
    {t : ℕ} (hEt : ∀ u ∈ E, u ≤ t) (hT : ∀ u ∈ T, u ≤ t) :
    Tracks p (E ++ [t]) D (t :: T) (s.pushed t) where
  kept := by
    rw [h.pushed_failures hp hE hEt hT]
    exact List.filter_sublist
  window := by
    intro t' ht'
    have htt : t ≤ t' := ht' t (List.mem_cons_self ..)
    rw [h.pushed_failures hp hE hEt hT, List.filter_filter]
    refine List.filter_congr fun u _ => ?_
    rw [Bool.eq_iff_iff]
    simp only [Bool.and_eq_true, decide_eq_true_eq]
    omega
  attempt := h.attempt
  delay := h.delay
  capped := h.capped

/-- Below the threshold the delay grows from the last one. -/
theorem restarted (h : Tracks p E D T s) (hp : s.policy = p) (hs : p.Sound) (t : ℕ) :
    Tracks p E (some (fromMillis s.nextDelayMs)) T
      { s with currentDelayMs := s.nextDelayMs, lastAttempt := some t } where
  kept := h.kept
  window := h.window
  attempt := ⟨nofun, nofun⟩
  delay := by
    intro d hd
    cases hd
    rfl
  capped := by
    have hc : s.cfg = p.backoff := congrArg RestartPolicy.backoff hp
    have := (BackoffScheduler.nextDelayMs_bounds (s := s) (hp ▸ hs)).2
    rw [hc] at this
    exact this

end Tracks

/-! ## One failure -/

section

variable {p : RestartPolicy} {h : List Call}

theorem era_reverse_sublist (cfg : BackoffConfig) (h : List Call) :
    (era cfg h).reverse.Sublist (h.filterMap Call.time) := by
  induction h with
  | nil => exact List.Sublist.refl _
  | cons c h ih =>
    cases c with
    | onReady t => exact ih.cons _
    | reset => exact List.nil_sublist _
    | onFailure t cls =>
      rw [era, List.reverse_append]
      refine List.Sublist.cons_cons t ?_
      split_ifs
      · exact List.nil_sublist _
      · exact ih

theorem Timed.tail {c : Call} (ht : Timed (c :: h)) : Timed h := by
  refine List.Pairwise.sublist ?_ ht
  exact List.Sublist.filterMap _ (List.sublist_cons_self c h)

theorem Timed.le {t u : ℕ} {cls : FailureClass} (ht : Timed (.onFailure t cls :: h))
    (hu : u ∈ h.filterMap Call.time) : u ≤ t :=
  (List.pairwise_cons.1 ht).1 u hu

theorem era_sorted (cfg : BackoffConfig) (ht : Timed h) : (era cfg h).Pairwise (· ≤ ·) :=
  List.pairwise_reverse.1 (ht.sublist (era_reverse_sublist cfg h))

theorem era_le {cfg : BackoffConfig} {t u : ℕ} {cls : FailureClass}
    (ht : Timed (.onFailure t cls :: h)) (hu : u ∈ era cfg h) : u ≤ t :=
  ht.le ((era_reverse_sublist cfg h).subset (List.mem_reverse.2 hu))

/-- Without a failure since the counter reset no delay has been answered. -/
theorem lastDelay_of_era (he : era p.backoff h = []) : lastDelay p h = none := by
  induction h with
  | nil => rfl
  | cons c h ih =>
    cases c with
    | onReady t => exact ih he
    | reset => rfl
    | onFailure t cls => exact absurd he (List.append_ne_nil_of_right_ne_nil _ (List.cons_ne_nil _ _))

/-- An uptime nothing ended is the last ready's, unless a `reset` came
after it; then nothing is counted. -/
theorem lastReady_of_readyFor {r : ℕ} (hr : readyFor h = some r) (cfg : BackoffConfig) :
    lastReady h = some r ∨ era cfg h = [] := by
  cases h with
  | nil => exact .inr rfl
  | cons c h =>
    cases c with
    | onReady t => exact .inl hr
    | reset => exact .inr rfl
    | onFailure t cls => cases hr

/-- What counts toward a failure at `t`, and the delay before it. -/
def eraBefore (cfg : BackoffConfig) (h : List Call) (t : ℕ) : List ℕ :=
  if EndsStable cfg h t then [] else era cfg h

def delayBefore (p : RestartPolicy) (h : List Call) (t : ℕ) : Option ℕ :=
  if EndsStable p.backoff h t then none else lastDelay p h

theorem delayBefore_of_eraBefore {t : ℕ} (he : eraBefore p.backoff h t = []) :
    delayBefore p h t = none := by
  unfold eraBefore at he
  unfold delayBefore
  split_ifs at he ⊢ with hs
  · rfl
  · exact lastDelay_of_era he

/-- The uptime the code counts is one no failure ended. -/
def CountsUptime (p : RestartPolicy) (h : List Call) (t : ℕ) : Prop :=
  ∀ r, lastReady h = some r → fromMillis p.backoff.stableResetMs ≤ t - r → readyFor h = some r

/-- Where it does, the code clears its counters where the policy does. -/
theorem Tracks.cleared {t : ℕ} {T : List ℕ} (hp : p.Sound) (hu : CountsUptime p h t)
    (ht : Tracks p (era p.backoff h) (lastDelay p h) T (.after p h)) :
    Tracks p (eraBefore p.backoff h t) (delayBefore p h t) T
      ((BackoffScheduler.after p h).maybeResetAfterStableReady t) := by
  have hcfg : (BackoffScheduler.after p h).cfg = p.backoff :=
    congrArg RestartPolicy.backoff (BackoffScheduler.after_policy p h)
  unfold BackoffScheduler.maybeResetAfterStableReady eraBefore delayBefore
  rw [BackoffScheduler.after_lastReadyAt, hcfg]
  cases hr : lastReady h with
  | none =>
    by_cases hs : EndsStable p.backoff h t
    · -- only a `reset` hides a ready the policy still counts
      obtain ⟨r, hf, -⟩ := hs
      obtain hl | he := lastReady_of_readyFor hf p.backoff
      · cases hr.symm.trans hl
      · have hd := lastDelay_of_era he
        rw [he, hd] at ht
        simpa only [he, hd, ite_self] using ht
    · simpa only [if_neg hs] using ht
  | some r =>
    dsimp only
    by_cases hle : fromMillis p.backoff.stableResetMs ≤ t - r
    · have hs : EndsStable p.backoff h t := ⟨r, hu r hr hle, hle⟩
      rw [if_pos hle, if_pos hs, if_pos hs]
      exact ⟨List.Sublist.refl _, fun _ _ => rfl, ⟨fun _ => rfl, fun _ => rfl⟩, nofun, hp.ordered⟩
    · rw [if_neg hle]
      by_cases hs : EndsStable p.backoff h t
      · rw [if_pos hs, if_pos hs]
        obtain ⟨r', hf, hle'⟩ := hs
        obtain hl | he := lastReady_of_readyFor hf p.backoff
        · cases hr.symm.trans hl
          exact absurd hle' hle
        · have hd := lastDelay_of_era he
          rw [he, hd] at ht
          exact ht
      · rw [if_neg hs, if_neg hs]
        exact ht

/-- The failure is counted: the counters after `record` follow the era that
the failure extends. -/
theorem Tracks.recorded {t : ℕ} {cls : FailureClass} (hp : p.Sound)
    (htm : Timed (.onFailure t cls :: h)) (hu : CountsUptime p h t)
    (ht : Tracks p (era p.backoff h) (lastDelay p h) (h.filterMap Call.time) (.after p h)) :
    Tracks p (eraBefore p.backoff h t ++ [t]) (delayBefore p h t) (t :: h.filterMap Call.time)
        ((BackoffScheduler.after p h).record t cls) ∧
      ((BackoffScheduler.after p h).record t cls).failures =
        (eraBefore p.backoff h t ++ [t]).filter (t - fromMillis p.backoff.windowMs ≤ ·) := by
  have hpol : ((BackoffScheduler.after p h).maybeResetAfterStableReady t).policy = p :=
    (BackoffScheduler.maybeReset_policy _ _).trans (BackoffScheduler.after_policy p h)
  have hE : (eraBefore p.backoff h t).Pairwise (· ≤ ·) := by
    unfold eraBefore
    split_ifs
    · exact List.Pairwise.nil
    · exact era_sorted _ htm.tail
  have hEt : ∀ u ∈ eraBefore p.backoff h t, u ≤ t := by
    intro u hmem
    unfold eraBefore at hmem
    split_ifs at hmem
    · cases hmem
    · exact era_le htm hmem
  have hc := ht.cleared hp hu
  rw [BackoffScheduler.record_eq]
  exact ⟨hc.pushed hpol hE hEt fun u => htm.le, hc.pushed_failures hpol hE hEt fun u => htm.le⟩

theorem isAtThreshold_iff {s : BackoffScheduler} (hp : s.policy = p) :
    s.isAtThreshold = true ↔ p.backoff.threshold.toNat ≤ s.failures.length := by
  have hw := p.backoff.threshold.toNat_lt
  unfold BackoffScheduler.isAtThreshold BackoffScheduler.clampU32 BackoffScheduler.cfg
  rw [hp, decide_eq_true_eq]
  omega

theorem record_policy (p : RestartPolicy) (h : List Call) (t : ℕ) (cls : FailureClass) :
    ((BackoffScheduler.after p h).record t cls).policy = p := by
  rw [BackoffScheduler.record_eq]
  exact (BackoffScheduler.maybeReset_policy _ _).trans (BackoffScheduler.after_policy p h)

/-- Failures with no ready between them all count: only the oldest of them
can have ended a stable uptime, and it counts itself. -/
theorem length_le_era (cfg : BackoffConfig) (P : ℕ → Bool) (h' : List Call) :
    ∀ fs : List Call, (∀ c ∈ fs, ∃ u cls, c = .onFailure u cls ∧ P u = true) →
      fs.length ≤ ((era cfg (fs ++ h')).filter P).length := by
  intro fs
  induction fs with
  | nil =>
    intro _
    exact Nat.zero_le _
  | cons c fs ih =>
    intro hfs
    obtain ⟨u, cls, rfl, hu⟩ := hfs c (List.mem_cons_self ..)
    have hrest := ih fun c hc => hfs c (List.mem_cons_of_mem _ hc)
    have hone : ([u].filter P).length = 1 := by
      rw [List.filter_cons_of_pos hu]
      rfl
    rw [List.cons_append, era, List.filter_append, List.length_append, hone, List.length_cons]
    by_cases hs : EndsStable cfg (fs ++ h') u
    · obtain ⟨r, hr, -⟩ := hs
      cases fs with
      | nil => exact Nat.le_add_left _ _
      | cons c' fs =>
        obtain ⟨u', cls', rfl, -⟩ := hfs c' (List.mem_cons_of_mem _ (List.mem_cons_self ..))
        cases hr
    · rw [if_neg hs]
      omega

/-- The step lemma: with the counters in step with the era, and the uptime
the code counts uninterrupted, a failure is answered as promised. -/
theorem lawful_of_tracks {t : ℕ} {cls : FailureClass} (hp : p.Sound)
    (htm : Timed (.onFailure t cls :: h)) (hu : CountsUptime p h t)
    (ht : Tracks p (era p.backoff h) (lastDelay p h) (h.filterMap Call.time) (.after p h)) :
    Lawful p h t cls := by
  obtain ⟨hr, hf⟩ := ht.recorded hp htm hu
  have hkind : (BackoffScheduler.after p h).policy.kind = .boundedBackoff := by
    rw [BackoffScheduler.after_policy]
    exact hp.kind
  have hpol := record_policy p h t cls
  have hcfg : ((BackoffScheduler.after p h).record t cls).cfg = p.backoff :=
    congrArg RestartPolicy.backoff hpol
  have hcrash : (answer p h t cls).isCrashLoop = true ↔ p.backoff.threshold.toNat ≤
      ((era p.backoff (.onFailure t cls :: h)).filter
        (t - fromMillis p.backoff.windowMs ≤ ·)).length := by
    have hthr := isAtThreshold_iff hpol
    rw [hf] at hthr
    refine Iff.trans ?_ hthr
    unfold answer
    obtain ⟨ha, -, _, hd⟩ | ⟨ha, -, hd⟩ := BackoffScheduler.onFailure_cases hkind t cls
    · rw [hd, ha]
      exact ⟨fun _ => rfl, fun _ => rfl⟩
    · rw [hd, ha]
      exact ⟨nofun, nofun⟩
  refine ⟨hcrash, ?_, ?_, ?_⟩
  · intro hno
    unfold answer at hno ⊢
    obtain ⟨-, -, _, hd⟩ | ⟨-, -, hd⟩ := BackoffScheduler.onFailure_cases hkind t cls
    · rw [hd] at hno
      cases hno
    · have hps := hp
      rw [← hpol] at hps
      obtain ⟨hlo, hhi⟩ := BackoffScheduler.nextDelayMs_bounds hps
      rw [hcfg] at hlo hhi
      refine ⟨_, _, hd, Nat.mul_le_mul_right _ hlo, Nat.mul_le_mul_right _ hhi, ?_, ?_⟩
      · intro hone
        have hnil : eraBefore p.backoff h t = [] := by
          have : eraBefore p.backoff h t ++ [t] = [] ++ [t] := hone
          exact List.append_cancel_right this
        have hfirst := BackoffScheduler.nextDelayMs_first hps
          (hr.attempt.2 (delayBefore_of_eraBefore hnil))
        rw [hcfg] at hfirst
        unfold fromMillis
        rw [hfirst]
      · intro hns d hlast
        have hbefore : delayBefore p h t = some d := by
          unfold delayBefore
          rw [if_neg hns]
          exact hlast
        obtain ⟨u, hatt⟩ := Option.ne_none_iff_exists'.1 fun hn => by
          cases (hr.attempt.1 hn).symm.trans hbefore
        have hcap := hr.capped
        rw [← hcfg] at hcap
        rw [hr.delay d hbefore]
        exact Nat.mul_le_mul_right _ (BackoffScheduler.le_nextDelayMs hps hatt hcap)
  · intro hne
    unfold BackoffScheduler.maybeResetAfterStableReady at hne
    rw [BackoffScheduler.after_lastReadyAt] at hne
    cases hl : lastReady h with
    | none =>
      rw [hl] at hne
      exact absurd rfl hne
    | some r =>
      rw [hl] at hne
      dsimp only at hne
      split_ifs at hne with hle
      · have hc : (BackoffScheduler.after p h).cfg = p.backoff :=
          congrArg RestartPolicy.backoff (BackoffScheduler.after_policy p h)
        rw [hc] at hle
        exact ⟨r, hu r hl hle, hle⟩
      · exact absurd rfl hne
  · intro fs h' he hfs hlen
    rw [hcrash, he]
    have hcount := length_le_era p.backoff (t - fromMillis p.backoff.windowMs ≤ ·) h'
      (.onFailure t cls :: fs) (by
        intro c hc
        rcases List.mem_cons.1 hc with rfl | hc
        · exact ⟨t, cls, rfl, by simp only [decide_eq_true_eq]; omega⟩
        · obtain ⟨u, cls', rfl, hle⟩ := hfs c hc
          exact ⟨u, cls', rfl, by simpa using hle⟩)
    exact Nat.le_trans hlen hcount

/-- The counters stay in step with the era over a failure. -/
theorem Tracks.failure {t : ℕ} {cls : FailureClass} (hp : p.Sound)
    (htm : Timed (.onFailure t cls :: h)) (hu : CountsUptime p h t)
    (ht : Tracks p (era p.backoff h) (lastDelay p h) (h.filterMap Call.time) (.after p h)) :
    Tracks p (era p.backoff (.onFailure t cls :: h)) (lastDelay p (.onFailure t cls :: h))
      ((.onFailure t cls :: h : List Call).filterMap Call.time)
      (.after p (.onFailure t cls :: h)) := by
  obtain ⟨hr, -⟩ := ht.recorded hp htm hu
  have hkind : (BackoffScheduler.after p h).policy.kind = .boundedBackoff := by
    rw [BackoffScheduler.after_policy]
    exact hp.kind
  have hafter : BackoffScheduler.after p (.onFailure t cls :: h) =
      ((BackoffScheduler.after p h).onFailure t cls).1 := rfl
  rw [hafter, lastDelay, answer]
  obtain ⟨-, he, _, hd⟩ | ⟨-, he, hd⟩ := BackoffScheduler.onFailure_cases hkind t cls
  · rw [he, hd]
    exact hr
  · rw [he, hd]
    exact hr.restarted (record_policy p h t cls) hp t

/-- The run lemma: along a history whose failures all count an uptime no
failure ended, the counters follow the era. -/
theorem tracks_after (hp : p.Sound) (htm : Timed h) (hc : FirstAfterReady p h) :
    Tracks p (era p.backoff h) (lastDelay p h) (h.filterMap Call.time) (.after p h) := by
  induction h with
  | nil => exact ⟨List.Sublist.refl _, fun _ _ => rfl, ⟨fun _ => rfl, fun _ => rfl⟩, nofun, hp.ordered⟩
  | cons c h ih =>
    have hrun := ih htm.tail fun t cls h' hs => hc t cls h' (hs.trans (List.suffix_cons c h))
    cases c with
    | onReady t =>
      refine ⟨hrun.kept, ?_, hrun.attempt, hrun.delay, hrun.capped⟩
      intro t' ht'
      exact hrun.window t' fun u hmem => ht' u (List.mem_cons_of_mem _ hmem)
    | onFailure t cls => exact hrun.failure hp htm (hc t cls h (List.suffix_refl _))
    | reset =>
      have hcfg : (BackoffScheduler.after p h).cfg = p.backoff :=
        congrArg RestartPolicy.backoff (BackoffScheduler.after_policy p h)
      refine ⟨List.Sublist.refl _, fun _ _ => rfl, ⟨fun _ => rfl, fun _ => rfl⟩, nofun, ?_⟩
      show (BackoffScheduler.after p h).cfg.initialDelayMs.toNat ≤ _
      rw [hcfg]
      exact hp.ordered

/-- A failure that finds an old ready clears counters that hold the failure
that ended its uptime. -/
theorem countsUptime_of_lawful {t : ℕ} {cls : FailureClass} (hp : p.Sound)
    (hl : Lawful p h t cls) : CountsUptime p h t := by
  intro r hr hle
  have hcfg : (BackoffScheduler.after p h).cfg = p.backoff :=
    congrArg RestartPolicy.backoff (BackoffScheduler.after_policy p h)
  cases h with
  | nil => cases hr
  | cons c h =>
    cases c with
    | onReady u => exact hr
    | reset => cases hr
    | onFailure u cls' =>
      have hkind : (BackoffScheduler.after p h).policy.kind = .boundedBackoff := by
        rw [BackoffScheduler.after_policy]
        exact hp.kind
      have hne : (BackoffScheduler.after p (.onFailure u cls' :: h)).failures ≠ [] :=
        BackoffScheduler.onFailure_failures_ne hkind u cls'
      have hstable := hl.cleared (by
        intro heq
        apply hne
        rw [← heq]
        unfold BackoffScheduler.maybeResetAfterStableReady
        rw [BackoffScheduler.after_lastReadyAt, hr, hcfg]
        dsimp only
        rw [if_pos hle])
      obtain ⟨_, hnone, -⟩ := hstable
      cases hnone

end

/-- **The restart law.** Under a validated bounded backoff and along calls
at non-decreasing times, every failure is answered as the policy promises
exactly when every failure that comes `stable_reset_ms` or longer after the
last ready is the first one after it. -/
theorem lawful_iff (p : RestartPolicy) (h : List Call) (hk : p.kind = .boundedBackoff)
    (hv : p.validate = .ok ()) (ht : Timed h) : Obeys p h ↔ FirstAfterReady p h := by
  have hp := RestartPolicy.sound_of_validate hk hv
  constructor
  · intro ho t cls h' hs
    exact countsUptime_of_lawful hp (ho t cls h' hs)
  · intro hc t cls h' hs
    have hts : Timed (.onFailure t cls :: h') :=
      List.Pairwise.sublist (List.Sublist.filterMap _ hs.sublist) ht
    have hsub : FirstAfterReady p h' := fun t₀ cls₀ h₀ hs₀ =>
      hc t₀ cls₀ h₀ (hs₀.trans ((List.suffix_cons _ _).trans hs))
    exact lawful_of_tracks hp hts (hc t cls h' hs) (tracks_after hp hts.tail hsub)

/-- A worker ready at the start that comes down after the stable uptime and
fails every second from then on. -/
def oldReady : List Call :=
  [.onFailure 124000000000 .exitBeforeReady, .onFailure 123000000000 .exitBeforeReady,
    .onFailure 122000000000 .exitBeforeReady, .onFailure 121000000000 .exitBeforeReady,
    .onFailure 120000000000 .exitAfterReady, .onReady 0]

/-- Under the default policy its fifth failure within five seconds is
answered by a restart. -/
theorem oldReady_not_obeys : (RestartPolicy.validate {} = .ok () ∧ Timed oldReady) ∧
    answer {} oldReady.tail 124000000000 .exitBeforeReady =
      .restart 124500000000 500000000 ∧ ¬ Obeys {} oldReady := by
  have ha : answer {} oldReady.tail 124000000000 .exitBeforeReady =
      .restart 124500000000 500000000 := by decide +kernel
  refine ⟨⟨rfl, by decide +kernel⟩, ha, fun ho => ?_⟩
  have hcrash := (ho _ _ _ (List.suffix_refl _)).crash.2 (by decide +kernel)
  cases hcrash.symm.trans (congrArg BackoffDecision.isCrashLoop ha)

/-- A failure a second after the ready is answered as promised. -/
theorem lawful_after_ready : Obeys {} [.onFailure 1000000000 .exitAfterReady, .onReady 0] := by
  refine (lawful_iff {} _ rfl rfl (by decide +kernel)).2 ?_
  intro t cls h' hs r hr hle
  rcases List.suffix_cons_iff.1 hs with he | hs
  · cases he
    exact hr
  · rcases List.suffix_cons_iff.1 hs with he | hs
    · cases he
    · cases List.suffix_nil.1 hs

end Supervision

end Tensorplate
