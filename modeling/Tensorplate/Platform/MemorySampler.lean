import Mathlib.Data.List.Induction
import Tensorplate.Lib.Except
import Tensorplate.Lib.Pacing
import Tensorplate.Platform.Model.MemorySampler

/-!
# What a sampling report says

Every batch is due at a multiple of the interval, each at a later one than
the batch before, and starts before the duration is out. The report is
complete exactly where every tick had its batch inside its own window and
no reading was missing, and its peaks are the maxima of what was read.
-/

namespace Tensorplate

namespace Platform

open Lib

/-! ## The peaks of a series -/

/-- The peak over a series of readings. -/
def SamplePeak.of (values : List (Option ℕ)) : SamplePeak := values.foldl SamplePeak.observe {}

theorem SamplePeak.of_append (values : List (Option ℕ)) (value : Option ℕ) :
    SamplePeak.of (values ++ [value]) = (SamplePeak.of values).observe value := by
  unfold SamplePeak.of
  rw [List.foldl_append]
  rfl

theorem SamplePeak.of_available (values : List (Option ℕ)) :
    (SamplePeak.of values).availableSamples = values.countP Option.isSome := by
  induction values using List.reverseRecOn with
  | nil => rfl
  | append_singleton values value ih =>
    rw [of_append, List.countP_append, ← ih]
    rcases value with - | bytes
    · rfl
    · rfl

theorem SamplePeak.of_maxBytes (values : List (Option ℕ)) :
    (SamplePeak.of values).maxBytes = (values.filterMap id).max? := by
  induction values using List.reverseRecOn with
  | nil => rfl
  | append_singleton values value ih =>
    rw [of_append, List.filterMap_append]
    rcases value with - | bytes
    · simpa [observe] using ih
    · rw [observe, ih]
      generalize values.filterMap id = read
      rcases read with - | ⟨first, rest⟩
      · rfl
      · simp only [List.filterMap_cons, List.filterMap_nil, id, List.cons_append, List.max?_cons',
          List.foldl_append, List.foldl_cons, List.foldl_nil]

/-- The peaks of a domain over its samples. -/
def peaksOf (plan : SamplePlan) (samples : List MemoryObservation) (domain : BudgetDomainName) :
    DomainPeak where
  domain := domain
  consumed := .of (samples.map fun o => o.deviceAggregate.consumedBytes)
  processes := plan.processes.map fun p =>
    { pid := p.pid, role := p.role, peak := .of (samples.map fun o => o.processBytes p.pid p.role) }

theorem peaksOf_observe (plan : SamplePlan) (samples : List MemoryObservation)
    (domain : BudgetDomainName) (sample : MemoryObservation) :
    (peaksOf plan samples domain).observe sample = peaksOf plan (samples ++ [sample]) domain := by
  simp [peaksOf, DomainPeak.observe, SamplePeak.of_append]

/-- The samples of a domain. -/
def samplesOf (samples : List MemoryObservation) (domain : BudgetDomainName) :
    List MemoryObservation :=
  samples.filter fun o => o.domain = domain

/-- **The reducer over a sequence of samples.** -/
def reduced (plan : SamplePlan) (samples : List MemoryObservation) : WindowReducer :=
  plan.domains.map fun d => peaksOf plan (samplesOf samples d) d

theorem reduced_nil (plan : SamplePlan) : reduced plan [] = WindowReducer.new plan := rfl

/-- Only the peaks of the sample's domain change. -/
theorem place_eq {peaks : BudgetDomainName → DomainPeak} (hpeaks : ∀ d, (peaks d).domain = d)
    {sample : MemoryObservation} {domains : List BudgetDomainName} (hnodup : domains.Nodup)
    {reducer : WindowReducer} (h : WindowReducer.place sample (domains.map peaks) = some reducer) :
    reducer = domains.map fun d =>
      if d = sample.domain then (peaks d).observe sample else peaks d := by
  induction domains generalizing reducer with
  | nil => exact absurd h (by simp [WindowReducer.place])
  | cons d rest ih =>
    obtain ⟨hnot, hrest⟩ := List.nodup_cons.1 hnodup
    simp only [List.map_cons, WindowReducer.place, hpeaks] at h ⊢
    by_cases hd : d = sample.domain
    · rw [if_pos hd, Option.some.injEq] at h
      rw [if_pos hd, ← h]
      congr 1
      refine List.map_congr_left fun e he => ?_
      have hne : e ≠ sample.domain := by
        rintro rfl
        exact hnot (hd ▸ he)
      rw [if_neg hne]
    · rw [if_neg hd, Option.map_eq_some_iff] at h
      obtain ⟨placed, hplaced, rfl⟩ := h
      rw [if_neg hd, ← ih hrest hplaced]

theorem observe_reduced {plan : SamplePlan} {samples : List MemoryObservation}
    {sample : MemoryObservation} {reducer : WindowReducer}
    (h : WindowReducer.observe (reduced plan samples) sample = .ok reducer) :
    reducer = reduced plan (samples ++ [sample]) := by
  obtain ⟨-, -, h⟩ := bind_eq_ok.1 h
  split at h
  · exact absurd h (by simp)
  · rename_i placed hplaced
    obtain rfl : placed = reducer := by simpa using h
    refine (place_eq (fun _ => rfl) plan.selected.2.2.2 hplaced).trans ?_
    unfold reduced
    refine List.map_congr_left fun d _ => ?_
    by_cases hd : d = sample.domain
    · rw [if_pos hd, peaksOf_observe]
      simp [samplesOf, hd]
    · have hne : ¬sample.domain = d := fun h => hd h.symm
      rw [if_neg hd]
      simp [samplesOf, hne]

/-! ## A round of the loop -/

variable {σ : Type} {w : Surroundings σ} {c : Captures} {plan : SamplePlan} {time : σ → ℕ}

/-- **A monotone clock** whose `sleep_until` never returns early: a time that
no operation turns back, that every reading lies at, and that a sleep
brings to its deadline. -/
structure MonotoneClock (w : Surroundings σ) (time : σ → ℕ) : Prop where
  reads : ∀ s, time s ≤ (w.elapsed s).1 ∧ (w.elapsed s).1 ≤ time (w.elapsed s).2
  sleeps : ∀ deadline s, deadline ≤ time (w.sleepUntil deadline s) ∧
    time s ≤ time (w.sleepUntil deadline s)
  nvidiaSmi : ∀ args s, time s ≤ time (w.nvidiaSmi args s).2
  procFile : ∀ path s, time s ≤ time (w.procFile path s).2
  write : ∀ sample s, time s ≤ time (w.write sample s).2
  flush : ∀ s, time s ≤ time (w.flush s).2

theorem ask_ok {α : Type} {operation : σ → α × σ} {s s' : σ} {a : α} :
    Sampler.ask operation s = .ok (a, s') ↔ operation s = (a, s') := by
  simp [Sampler.ask]

theorem decided_ok {α : Type} {result : Except SamplingError α} {s s' : σ} {a : α} :
    Sampler.decided result s = .ok (a, s') ↔ result = .ok a ∧ s = s' := by
  rcases result with e | b
  · simp [Sampler.decided, Except.map]
  · simp [Sampler.decided, Except.map]

theorem attempt_ok {operation : σ → Except SamplingError Unit × σ} {s s' : σ} {u : Unit}
    (h : Sampler.attempt operation s = .ok (u, s')) : s' = (operation s).2 := by
  unfold Sampler.attempt at h
  generalize operation s = answer at h ⊢
  obtain ⟨e | u, t⟩ := answer
  · exact absurd h (by simp [Except.map])
  · simpa [Except.map, eq_comm] using h

theorem new_domain {domain : BudgetDomainName} {source : MemorySource} {totals : DomainMemory}
    {processes : ProcessAggregate} {timestamp : ℕ} {sample : MemoryObservation}
    (h : MemoryObservation.new domain source totals processes timestamp = .ok sample) :
    sample.domain = domain := by
  obtain ⟨-, -, h⟩ := bind_eq_ok.1 h
  obtain rfl := Except.ok.inj h
  rfl

theorem mapError_ok {ε ε' α : Type} {f : ε → ε'} {x : Except ε α} {a : α} :
    x.mapError f = .ok a ↔ x = .ok a := by
  rcases x with e | b
  · simp [Except.mapError]
  · simp [Except.mapError]

theorem observation_domain {domain : BudgetDomainName} {source : MemorySource}
    {read : DomainMemory × ProcessAggregate} {timestamp : ℕ} {sample : MemoryObservation}
    (h : observation domain source read timestamp = .ok sample) : sample.domain = domain :=
  new_domain (mapError_ok.1 h)

theorem orUnavailable_domain {domain : BudgetDomainName} {source : MemorySource} {timestamp : ℕ}
    {result : Except MemorySampleError MemoryObservation} {sample : MemoryObservation}
    (hresult : ∀ sample, result = .ok sample → sample.domain = domain)
    (h : orUnavailable domain source timestamp result = .ok sample) : sample.domain = domain := by
  rcases result with e | taken
  · exact new_domain (mapError_ok.1 h)
  · obtain rfl : taken = sample := Except.ok.inj h
    exact hresult taken rfl

theorem wholeXml_domain {processes : List ProcessIdentity} {timestamp : ℕ} {xml : Option String}
    {sample : MemoryObservation} (h : wholeXml c processes timestamp xml = some sample) :
    sample.domain = .deviceVram := by
  rcases xml with - | text
  · exact absurd h (by simp [wholeXml])
  · simp only [wholeXml, Option.bind_eq_bind, Option.bind_some] at h
    split at h
    · rename_i taken htaken
      split at h
      · obtain rfl : taken = sample := Option.some.inj h
        obtain ⟨read, -, hread⟩ := bind_eq_ok.1 htaken
        exact observation_domain hread
      · exact absurd h (by simp)
    · exact absurd h (by simp)

theorem procStatuses_time (hclock : MonotoneClock w time) (processes : List ProcessIdentity)
    (s : σ) : time s ≤ time (procStatuses w processes s).2 := by
  induction processes generalizing s with
  | nil => exact le_rfl
  | cons p rest ih => exact (hclock.procFile _ s).trans (ih _)

/-- **A sample is of the domain it was asked for**, and takes time. -/
theorem collect_spec (hclock : MonotoneClock w time) (domain : BudgetDomainName)
    (processes : List ProcessIdentity) (timestamp : ℕ) (s : σ) :
    time s ≤ time (collect w c domain processes timestamp s).2 ∧
      ∀ sample, (collect w c domain processes timestamp s).1 = .ok sample →
        sample.domain = domain := by
  cases domain with
  | sharedPool => exact ⟨le_rfl, fun sample h => absurd h (by simp [collect])⟩
  | guestRam =>
    refine ⟨(hclock.procFile _ s).trans (procStatuses_time hclock processes _), fun sample h => ?_⟩
    refine orUnavailable_domain (fun taken htaken => ?_) h
    obtain ⟨read, -, hread⟩ := bind_eq_ok.1 htaken
    exact observation_domain hread
  | deviceVram =>
    have hxml := hclock.nvidiaSmi ["-q", "-x"] s
    unfold collect
    dsimp only
    split
    · rename_i taken htaken
      refine ⟨hxml, fun sample h => ?_⟩
      obtain rfl : taken = sample := Except.ok.inj h
      exact wholeXml_domain htaken
    · refine ⟨hxml.trans ((hclock.nvidiaSmi _ _).trans (hclock.nvidiaSmi _ _)),
        fun sample h => ?_⟩
      refine orUnavailable_domain (fun taken htaken => ?_) h
      obtain ⟨read, -, hread⟩ := bind_eq_ok.1 htaken
      exact observation_domain hread

theorem sampleDomains_spec (hclock : MonotoneClock w time) {timestamp : ℕ}
    {domains : List BudgetDomainName} {before samples : List MemoryObservation}
    {reducer : WindowReducer} {s s' : σ}
    (h : sampleDomains w c plan timestamp domains (reduced plan before) s =
      .ok ((reducer, samples), s')) :
    reducer = reduced plan (before ++ samples) ∧ samples.map (·.domain) = domains ∧
      time s ≤ time s' := by
  induction domains generalizing before samples s with
  | nil =>
    obtain ⟨hpair, rfl⟩ := stateT_pure_eq_ok.1 h
    obtain ⟨rfl, rfl⟩ := Prod.mk.inj hpair
    exact ⟨by rw [List.append_nil], rfl, le_rfl⟩
  | cons domain rest ih =>
    obtain ⟨answer, s₁, hask, h⟩ := stateT_bind_eq_ok.1 h
    obtain ⟨sample, s₂, hsample, h⟩ := stateT_bind_eq_ok.1 h
    obtain ⟨observed, s₃, hobserve, h⟩ := stateT_bind_eq_ok.1 h
    obtain ⟨_, s₄, hwrite, h⟩ := stateT_bind_eq_ok.1 h
    obtain ⟨⟨last, taken⟩, s₅, hrest, h⟩ := stateT_bind_eq_ok.1 h
    obtain ⟨hpair, rfl⟩ := stateT_pure_eq_ok.1 h
    obtain ⟨rfl, rfl⟩ := Prod.mk.inj hpair
    obtain ⟨hread, rfl⟩ := decided_ok.1 hsample
    obtain ⟨hpeaks, rfl⟩ := decided_ok.1 hobserve
    obtain ⟨htime, hdomain⟩ := collect_spec (c := c) hclock domain plan.processes timestamp s
    rw [ask_ok.1 hask] at htime hdomain
    have hsampled := hdomain sample (mapError_ok.1 hread)
    rw [observe_reduced hpeaks] at hrest
    obtain ⟨hreducer, hdomains, hlast⟩ := ih hrest
    refine ⟨?_, ?_, ?_⟩
    · rw [hreducer, List.append_assoc]
      rfl
    · rw [List.map_cons, hdomains, hsampled]
    · have hwritten := hclock.write sample s₁
      rw [← attempt_ok hwrite] at hwritten
      exact htime.trans (hwritten.trans hlast)

theorem sinceStart_spec (hclock : MonotoneClock w time) {start elapsed : ℕ} {s s' : σ}
    (h : sinceStart w start s = .ok (elapsed, s')) :
    time s ≤ start + elapsed ∧ start + elapsed ≤ time s' := by
  obtain ⟨reading, s₁, hask, h⟩ := stateT_bind_eq_ok.1 h
  obtain ⟨hsub, rfl⟩ := decided_ok.1 h
  have hreads := hclock.reads s
  rw [ask_ok.1 hask] at hreads
  split at hsub
  · obtain rfl := Except.ok.inj hsub
    dsimp only at hreads
    omega
  · exact absurd hsub (by simp)

theorem le_divCeil_mul {a b : ℕ} (hb : 0 < b) : a ≤ divCeil a b * b := by
  have hdiv := Nat.div_add_mod a b
  have hmod := Nat.mod_lt a hb
  unfold divCeil
  split
  · rw [Nat.mul_comm]
    omega
  · rw [Nat.add_mul, Nat.mul_comm]
    omega

theorem divCeil_eq {a b : ℕ} (hb : 0 < b) : divCeil a b = (a + b - 1) / b := by
  have hdiv := Nat.div_add_mod a b
  have hmod := Nat.mod_lt a hb
  unfold divCeil
  symm
  split
  · refine Nat.div_eq_of_lt_le ?_ ?_
    · rw [Nat.mul_comm]
      omega
    · rw [Nat.add_mul, Nat.mul_comm]
      omega
  · refine Nat.div_eq_of_lt_le ?_ ?_
    · rw [Nat.add_mul, Nat.mul_comm]
      omega
    · rw [Nat.add_mul, Nat.add_mul, Nat.mul_comm]
      omega

/-- A multiple of the interval below the duration is one of the ticks. -/
theorem tick_lt_divCeil {k a b : ℕ} (hb : 0 < b) (h : k * b < a) : k < divCeil a b :=
  Nat.lt_of_mul_lt_mul_right (lt_of_lt_of_le h (le_divCeil_mul hb))

theorem dueAfter_spec {next after next' : ℕ} (hdvd : plan.interval ∣ next)
    (h : dueAfter plan next after = .ok next') :
    plan.interval ∣ next' ∧ next + plan.interval ≤ next' := by
  unfold dueAfter toU64 at h
  dsimp only at h
  have hle := le_divCeil_mul (a := after) plan.positive.1
  split_ifs at h with hafter
  · obtain rfl := Except.ok.inj h
    exact ⟨Nat.dvd_mul_left _ _, by omega⟩
  · obtain rfl := Except.ok.inj h
    exact ⟨Nat.dvd_add hdvd (Nat.dvd_refl _), le_rfl⟩

/-- **A round that takes a batch.** The batch starts at or after its due time
and before the duration is out. -/
structure Round (plan : SamplePlan) (v v' : Sampling) (batch : Batch) : Prop where
  due : batch.due = v.next
  starts : v.next ≤ batch.started ∧ batch.started < plan.duration
  ends : batch.started ≤ batch.ended
  sampled : batch.samples.map (·.domain) = plan.domains
  completed : v'.completed = v.completed + 1
  late : v'.late = if batch.ended ≥ min (v.next + plan.interval) plan.duration then v.late + 1
    else v.late
  next : plan.interval ∣ v'.next ∧ v.next + plan.interval ≤ v'.next
  batches : v'.batches = v.batches ++ [batch]
  reducer : v'.reducer = reduced plan (v'.batches.flatMap Batch.samples)

/-- **A round ends the loop or takes a batch.** -/
theorem sampleRound_spec (hclock : MonotoneClock w time) {start : ℕ} {v : Sampling}
    (hreducer : v.reducer = reduced plan (v.batches.flatMap Batch.samples))
    (hdvd : plan.interval ∣ v.next) {s s' : σ} {result : Option Sampling}
    (h : sampleRound w c plan start v s = .ok (result, s')) :
    ∀ v', result = some v' → ∃ batch, Round plan v v' batch := by
  rintro v' rfl
  obtain ⟨wake, s₁, hwake, h₁⟩ := stateT_bind_eq_ok.1 h
  obtain ⟨_, s₂, hsleep, h₂⟩ := stateT_bind_eq_ok.1 h₁
  obtain ⟨elapsed, s₃, helapsed, h₃⟩ := stateT_bind_eq_ok.1 h₂
  obtain ⟨hadd, rfl⟩ := decided_ok.1 hwake
  have hwoken : start + min v.next plan.duration ≤ start + elapsed := by
    have hslept := (hclock.sleeps wake s).1
    have hread := (sinceStart_spec hclock helapsed).1
    have hstate := (Prod.mk.inj (ask_ok.1 hsleep)).2
    rw [hstate] at hslept
    split at hadd
    · obtain rfl := Except.ok.inj hadd
      exact hslept.trans hread
    · exact absurd hadd (by simp)
  split at h₃
  · exact absurd (stateT_pure_eq_ok.1 h₃).1 (by simp)
  rename_i hbefore
  obtain ⟨timestamp, s₄, htimestamp, h₄⟩ := stateT_bind_eq_ok.1 h₃
  obtain ⟨⟨reducer, samples⟩, s₅, hsamples, h₅⟩ := stateT_bind_eq_ok.1 h₄
  obtain ⟨_, s₆, hflush, h₆⟩ := stateT_bind_eq_ok.1 h₅
  obtain ⟨after, s₇, hafter, h₇⟩ := stateT_bind_eq_ok.1 h₆
  obtain ⟨next, s₈, hnext, h₈⟩ := stateT_bind_eq_ok.1 h₇
  obtain ⟨hv, -⟩ := stateT_pure_eq_ok.1 h₈
  obtain rfl := Option.some.inj hv
  obtain ⟨-, rfl⟩ := decided_ok.1 htimestamp
  obtain ⟨hdue, -⟩ := decided_ok.1 hnext
  rw [hreducer] at hsamples
  obtain ⟨hreduced, hdomains, hsampled⟩ := sampleDomains_spec hclock hsamples
  have hends : elapsed ≤ after := by
    have hfirst := (sinceStart_spec hclock helapsed).2
    have hlast := (sinceStart_spec hclock hafter).1
    have hflushed := hclock.flush s₅
    rw [← attempt_ok hflush] at hflushed
    omega
  refine ⟨⟨v.next, elapsed, after, samples⟩, rfl, ?_, hends, hdomains, rfl, rfl,
    dueAfter_spec hdvd hdue, rfl, ?_⟩
  · dsimp only
    omega
  · rw [hreduced]
    simp

/-! ## The loop -/

/-- The tick a batch was due at. -/
def tickOf (plan : SamplePlan) (b : Batch) : ℕ := b.due / plan.interval

/-- The end of the window of a tick. -/
def windowEnd (plan : SamplePlan) (k : ℕ) : ℕ := min ((k + 1) * plan.interval) plan.duration

/-- **What the variables of the loop say** of the batches that completed. -/
structure Sampling.Sound (plan : SamplePlan) (v : Sampling) : Prop where
  next : plan.interval ∣ v.next
  multiples : ∀ b ∈ v.batches, plan.interval ∣ b.due
  before : ∀ b ∈ v.batches, b.due < v.next
  increasing : v.batches.Pairwise fun a b => a.due < b.due
  starts : ∀ b ∈ v.batches, b.due ≤ b.started ∧ b.started < plan.duration
  ends : ∀ b ∈ v.batches, b.started ≤ b.ended
  sampled : ∀ b ∈ v.batches, b.samples.map (·.domain) = plan.domains
  completed : v.completed = v.batches.length
  late : v.late = v.batches.countP fun b => b.ended ≥ min (b.due + plan.interval) plan.duration
  reducer : v.reducer = reduced plan (v.batches.flatMap Batch.samples)

namespace Sampling.Sound

variable {v v' : Sampling} {batch : Batch}

theorem first (plan : SamplePlan) : Sampling.Sound plan { reducer := .new plan } where
  next := Nat.dvd_zero _
  multiples := nofun
  before := nofun
  increasing := List.Pairwise.nil
  starts := nofun
  ends := nofun
  sampled := nofun
  completed := rfl
  late := rfl
  reducer := reduced_nil plan

theorem round (h : v.Sound plan) (hround : Round plan v v' batch) : v'.Sound plan := by
  have hpositive := plan.positive.1
  have hnext := hround.next
  have hdue := hround.due
  have hmem : ∀ {P : Batch → Prop}, (∀ b ∈ v.batches, P b) → P batch → ∀ b ∈ v'.batches, P b := by
    intro P hold hnew b hb
    rw [hround.batches, List.mem_append, List.mem_singleton] at hb
    rcases hb with hb | rfl
    · exact hold b hb
    · exact hnew
  refine ⟨hnext.1, ?_, ?_, ?_, ?_, ?_, ?_, ?_, ?_, hround.reducer⟩
  · exact hmem h.multiples (hdue ▸ h.next)
  · refine hmem (fun b hb => ?_) ?_
    · have hbefore := h.before b hb
      omega
    · omega
  · rw [hround.batches, List.pairwise_append]
    refine ⟨h.increasing, List.pairwise_singleton _ _, fun a ha b hb => ?_⟩
    rw [List.mem_singleton] at hb
    subst hb
    rw [hdue]
    exact h.before a ha
  · exact hmem h.starts (hdue ▸ hround.starts)
  · exact hmem h.ends hround.ends
  · exact hmem h.sampled hround.sampled
  · rw [hround.completed, h.completed, hround.batches, List.length_append, List.length_singleton]
  · rw [hround.late, h.late, hround.batches, List.countP_append, List.countP_singleton, hdue]
    by_cases hlate : batch.ended ≥ min (v.next + plan.interval) plan.duration
    · rw [if_pos hlate, if_pos (decide_eq_true hlate)]
    · rw [if_neg hlate, if_neg (by simpa using hlate), Nat.add_zero]

theorem due_eq (h : v.Sound plan) {b : Batch} (hb : b ∈ v.batches) :
    tickOf plan b * plan.interval = b.due :=
  Nat.div_mul_cancel (h.multiples b hb)

theorem paced (h : v.Sound plan) :
    Paced (tickOf plan) Batch.started Batch.ended plan.interval v.batches
      (divCeil plan.duration plan.interval) where
  increasing := by
    refine h.increasing.imp_of_mem fun {a b} ha hb hlt => ?_
    have hless : tickOf plan a * plan.interval < tickOf plan b * plan.interval := by
      rw [h.due_eq ha, h.due_eq hb]
      exact hlt
    exact Nat.lt_of_mul_lt_mul_right hless
  below b hb := by
    have hstarts := h.starts b hb
    refine tick_lt_divCeil plan.positive.1 ?_
    rw [h.due_eq hb]
    omega
  due b hb := by
    rw [h.due_eq hb]
    exact (h.starts b hb).1
  ends := h.ends

/-- **The loop keeps the invariant**, and ends before it has taken more
batches than there are ticks. -/
theorem loop (hclock : MonotoneClock w time) {start fuel : ℕ} {s s' : σ} {result : Option Sampling}
    (h : v.Sound plan) (hloop : sampleLoop w c plan start fuel v s = .ok (result, s')) :
    (∀ v', result = some v' → v'.Sound plan) ∧
      (result = none → v.batches.length + fuel ≤ divCeil plan.duration plan.interval) := by
  induction fuel generalizing v s with
  | zero =>
    obtain ⟨rfl, -⟩ := stateT_pure_eq_ok.1 hloop
    exact ⟨fun v' h => absurd h (by simp), fun _ => h.paced.length_le⟩
  | succ fuel ih =>
    obtain ⟨taken, s₁, hround, hrest⟩ := stateT_bind_eq_ok.1 hloop
    have hspec := sampleRound_spec hclock h.reducer h.next hround
    rcases taken with - | v₁
    · obtain ⟨rfl, -⟩ := stateT_pure_eq_ok.1 hrest
      refine ⟨fun v' heq => ?_, fun hnone => absurd hnone (by simp)⟩
      obtain rfl := Option.some.inj heq
      exact h
    · obtain ⟨batch, hbatch⟩ := hspec v₁ rfl
      obtain ⟨hsound, hnone⟩ := ih (h.round hbatch) hrest
      refine ⟨hsound, fun hended => ?_⟩
      have hbound := hnone hended
      rw [hbatch.batches, List.length_append, List.length_singleton] at hbound
      omega

end Sampling.Sound

/-! ## The report -/

/-- Every reading of the batch was available. -/
def Batch.Available (plan : SamplePlan) (b : Batch) : Prop :=
  ∀ o ∈ b.samples, o.deviceAggregate.consumedBytes.isSome ∧
    ∀ p ∈ plan.processes, (o.processBytes p.pid p.role).isSome

theorem samplesOf_append (front back : List MemoryObservation) (domain : BudgetDomainName) :
    samplesOf (front ++ back) domain = samplesOf front domain ++ samplesOf back domain :=
  List.filter_append front back

/-- A domain has one sample in every batch. -/
theorem samplesOf_length {batches : List Batch} {domain : BudgetDomainName}
    (hdomain : domain ∈ plan.domains)
    (hsampled : ∀ b ∈ batches, b.samples.map (·.domain) = plan.domains) :
    (samplesOf (batches.flatMap Batch.samples) domain).length = batches.length := by
  induction batches with
  | nil => rfl
  | cons b rest ih =>
    have hrest := ih fun b hb => hsampled b (List.mem_cons_of_mem _ hb)
    have hone : (samplesOf b.samples domain).length = 1 := by
      have hcount := List.count_eq_one_of_mem plan.selected.2.2.2 hdomain
      rw [← hsampled b List.mem_cons_self, List.count, List.countP_map] at hcount
      rw [samplesOf, ← List.countP_eq_length_filter, ← hcount]
      refine List.countP_congr fun o _ => ?_
      simp
    rw [List.flatMap_cons, samplesOf_append, List.length_append, hone, hrest, List.length_cons]
    omega

theorem of_full_iff {values : List (Option ℕ)} {n : ℕ} (hlength : values.length = n) :
    (SamplePeak.of values).availableSamples = n ↔ ∀ value ∈ values, value.isSome := by
  rw [SamplePeak.of_available, ← hlength, List.countP_eq_length]

/-- The peaks of every domain are full where every reading was available. -/
theorem reduced_full_iff {batches : List Batch}
    (hsampled : ∀ b ∈ batches, b.samples.map (·.domain) = plan.domains) :
    ((reduced plan (batches.flatMap Batch.samples)).all fun d =>
        d.consumed.availableSamples = batches.length &&
          d.processes.all fun p => p.peak.availableSamples = batches.length) = true ↔
      ∀ b ∈ batches, b.Available plan := by
  have hread : ∀ d ∈ plan.domains, ∀ read : MemoryObservation → Option ℕ,
      (SamplePeak.of ((samplesOf (batches.flatMap Batch.samples) d).map read)).availableSamples =
        batches.length ↔
      ∀ o ∈ samplesOf (batches.flatMap Batch.samples) d, (read o).isSome := by
    intro d hd read
    refine (of_full_iff ?_).trans (by simp)
    rw [List.length_map, samplesOf_length hd hsampled]
  have hmem : ∀ {o : MemoryObservation} {d : BudgetDomainName},
      o ∈ samplesOf (batches.flatMap Batch.samples) d ↔
        (∃ b ∈ batches, o ∈ b.samples) ∧ o.domain = d := by
    intro o d
    simp [samplesOf]
  simp only [reduced, peaksOf, List.all_map, List.all_eq_true, Function.comp_apply,
    Bool.and_eq_true, decide_eq_true_eq]
  constructor
  · intro hfull b hb o ho
    have hdomain : o.domain ∈ plan.domains := by
      rw [← hsampled b hb]
      exact List.mem_map_of_mem ho
    obtain ⟨hconsumed, hprocesses⟩ := hfull o.domain hdomain
    have hin := hmem.2 ⟨⟨b, hb, ho⟩, rfl⟩
    exact ⟨(hread _ hdomain _).1 hconsumed o hin,
      fun p hp => (hread _ hdomain _).1 (hprocesses p hp) o hin⟩
  · intro havailable d hd
    refine ⟨(hread d hd _).2 fun o ho => ?_, fun p hp => (hread d hd _).2 fun o ho => ?_⟩
    · obtain ⟨⟨b, hb, ho⟩, -⟩ := hmem.1 ho
      exact (havailable b hb o ho).1
    · obtain ⟨⟨b, hb, ho⟩, -⟩ := hmem.1 ho
      exact (havailable b hb o ho).2 p hp

/-- **The peaks of a report** are the maxima over the available samples of
each series: what a domain consumed, and what each process held in it. -/
def Peaks (plan : SamplePlan) (batches : List Batch) (domains : List DomainPeak) : Prop :=
  domains.map (·.domain) = plan.domains ∧ ∀ d ∈ domains,
    d.consumed.maxBytes = ((samplesOf (batches.flatMap Batch.samples) d.domain).filterMap
      fun o => o.deviceAggregate.consumedBytes).max? ∧
    (d.processes.map fun p => ProcessIdentity.mk p.pid p.role) = plan.processes ∧
    ∀ p ∈ d.processes, p.peak.maxBytes =
      ((samplesOf (batches.flatMap Batch.samples) d.domain).filterMap
        fun o => o.processBytes p.pid p.role).max?

theorem peaks_reduced (plan : SamplePlan) (batches : List Batch) :
    Peaks plan batches (reduced plan (batches.flatMap Batch.samples)) := by
  have hmax : ∀ (samples : List MemoryObservation) (read : MemoryObservation → Option ℕ),
      (SamplePeak.of (samples.map read)).maxBytes = (samples.filterMap read).max? := by
    intro samples read
    rw [SamplePeak.of_maxBytes, List.filterMap_map]
    rfl
  refine ⟨?_, fun d hd => ?_⟩
  · rw [reduced, List.map_map]
    exact List.map_id _
  · obtain ⟨domain, -, rfl⟩ := List.mem_map.1 hd
    refine ⟨hmax _ _, ?_, fun p hp => ?_⟩
    · rw [peaksOf, List.map_map]
      exact List.map_id _
    · obtain ⟨q, -, rfl⟩ := List.mem_map.1 hp
      exact hmax _ _

theorem divCeil_pos {a b : ℕ} (ha : 0 < a) (hb : 0 < b) : 0 < divCeil a b :=
  tick_lt_divCeil hb (by omega)

/-- **The report is complete where every window is covered.** -/
theorem finish_complete_iff {v : Sampling} (h : v.Sound plan) :
    (v.reducer.finish (divCeil plan.duration plan.interval) v.completed v.late).complete = true ↔
      (∀ k < divCeil plan.duration plan.interval, v.batches.countP
        (fun b => InWindow Batch.started Batch.ended plan.interval (windowEnd plan) k b) = 1) ∧
      ∀ b ∈ v.batches, b.Available plan := by
  have hpositive := divCeil_pos plan.positive.2 plan.positive.1
  have hlimit : ∀ k, windowEnd plan k ≤ (k + 1) * plan.interval := fun k => min_le_left _ _
  have hcovered := h.paced.covered_iff hlimit
  have hlate : v.late = 0 ↔ ∀ b ∈ v.batches, b.ended < windowEnd plan (tickOf plan b) := by
    rw [h.late, List.countP_eq_zero]
    refine forall₂_congr fun b hb => ?_
    rw [windowEnd, Nat.add_mul, h.due_eq hb, Nat.one_mul]
    simp
  unfold WindowReducer.finish
  rw [← hcovered, ← hlate, ← reduced_full_iff h.sampled, h.reducer, h.completed]
  simp only [Bool.and_eq_true, decide_eq_true_eq]
  constructor
  · rintro ⟨⟨⟨-, hlength⟩, hzero⟩, hfull⟩
    rw [hlength] at hfull
    exact ⟨⟨hlength.symm, hzero⟩, hfull⟩
  · rintro ⟨⟨hlength, hzero⟩, hfull⟩
    refine ⟨⟨⟨hpositive, hlength.symm⟩, hzero⟩, ?_⟩
    rw [← hlength]
    exact hfull

theorem runSamples_spec (hclock : MonotoneClock w time) {fuel : ℕ} {s s' : σ}
    {report : SampleReport} {batches : List Batch}
    (h : runSamples w c plan fuel s = .ok (some (report, batches), s')) :
    ∃ v : Sampling, v.Sound plan ∧ v.batches = batches ∧
      report = v.reducer.finish (divCeil plan.duration plan.interval) v.completed v.late := by
  obtain ⟨start, s₁, -, h₁⟩ := stateT_bind_eq_ok.1 h
  obtain ⟨result, s₂, hloop, h₂⟩ := stateT_bind_eq_ok.1 h₁
  have hsound := ((Sampling.Sound.first plan).loop hclock hloop).1
  rcases result with - | v
  · exact absurd (stateT_pure_eq_ok.1 h₂).1 (by simp)
  · obtain ⟨expected, s₃, hexpected, h₃⟩ := stateT_bind_eq_ok.1 h₂
    obtain ⟨hword, -⟩ := decided_ok.1 hexpected
    obtain ⟨hpair, -⟩ := stateT_pure_eq_ok.1 h₃
    obtain ⟨rfl, rfl⟩ := Prod.mk.inj (Option.some.inj hpair)
    unfold toU64 at hword
    split at hword
    · obtain rfl := Except.ok.inj hword
      exact ⟨v, hsound v rfl, rfl, rfl⟩
    · exact absurd hword (by simp)

/-- **A run ends**: one round for each tick and one more are enough. -/
theorem runSamples_ends (hclock : MonotoneClock w time) {fuel : ℕ}
    (hfuel : divCeil plan.duration plan.interval < fuel) {s s' : σ} :
    runSamples w c plan fuel s ≠ .ok (none, s') := by
  intro h
  obtain ⟨start, s₁, -, h₁⟩ := stateT_bind_eq_ok.1 h
  obtain ⟨result, s₂, hloop, h₂⟩ := stateT_bind_eq_ok.1 h₁
  have hnone := ((Sampling.Sound.first plan).loop hclock hloop).2
  rcases result with - | v
  · have hbound := hnone rfl
    dsimp only [List.length_nil] at hbound
    omega
  · obtain ⟨expected, s₃, -, h₃⟩ := stateT_bind_eq_ok.1 h₂
    exact absurd (stateT_pure_eq_ok.1 h₃).1 (by simp)

/-- **What a report says of its run**, whatever the commands, the files and
the output do. There are as many ticks as the duration has intervals,
rounded up, and no more batches; each batch is due at a multiple of the
interval of its own and starts there or later, before the duration is out.
The report is complete if and only if every tick has exactly one batch
inside its window and no reading of a batch was missing; its peaks are the
maxima of the readings. -/
theorem sampled_as_reported (hclock : MonotoneClock w time) {fuel : ℕ} {s s' : σ}
    {report : SampleReport} {batches : List Batch}
    (h : runSamples w c plan fuel s = .ok (some (report, batches), s')) :
    report.expectedTicks = (plan.duration + plan.interval - 1) / plan.interval ∧
      (report.completedTicks = batches.length ∧ report.completedTicks ≤ report.expectedTicks) ∧
      (batches.Pairwise (fun a b => a.due < b.due) ∧ ∀ b ∈ batches,
        plan.interval ∣ b.due ∧ b.due ≤ b.started ∧ b.started < plan.duration ∧
          b.started ≤ b.ended ∧ b.samples.map (·.domain) = plan.domains) ∧
      (report.complete = true ↔
        (∀ k < report.expectedTicks, batches.countP (fun b => k * plan.interval ≤ b.started ∧
          b.ended < min ((k + 1) * plan.interval) plan.duration) = 1) ∧
        ∀ b ∈ batches, b.Available plan) ∧
      Peaks plan batches report.domains := by
  obtain ⟨v, hv, rfl, rfl⟩ := runSamples_spec hclock h
  refine ⟨divCeil_eq plan.positive.1, ⟨hv.completed, ?_⟩, ⟨hv.increasing, fun b hb => ?_⟩,
    finish_complete_iff hv, ?_⟩
  · have hle := hv.paced.length_le
    rw [← hv.completed] at hle
    exact hle
  · obtain ⟨hdue, hstarted⟩ := hv.starts b hb
    exact ⟨hv.multiples b hb, hdue, hstarted, hv.ends b hb, hv.sampled b hb⟩
  · have hpeaks := peaks_reduced plan v.batches
    rw [← hv.reducer] at hpeaks
    exact hpeaks

/-- Three ticks of one domain and one process. -/
def threeTicks : SamplePlan where
  interval := 10
  duration := 28
  domains := [.guestRam]
  processes := [⟨7, .agent⟩]
  positive := by decide
  withinDay := by decide
  ticks := by decide
  selected := by decide
  attributed := by decide

/-- Surroundings in which every operation takes one nanosecond. -/
def prompt : Surroundings ℕ where
  nvidiaSmi _ s := (none, s + 1)
  procFile _ s := (some "", s + 1)
  elapsed s := (s, s + 1)
  sleepUntil deadline s := max deadline s
  write _ s := (.ok (), s + 1)
  flush s := (.ok (), s + 1)

theorem prompt_clock : MonotoneClock prompt id where
  reads s := ⟨le_rfl, Nat.le_succ s⟩
  sleeps _ _ := ⟨Nat.le_max_left _ _, Nat.le_max_right _ _⟩
  nvidiaSmi _ s := Nat.le_succ s
  procFile _ s := Nat.le_succ s
  write _ s := Nat.le_succ s
  flush s := Nat.le_succ s

/-- Captures that always read the same. -/
def steady : Captures where
  proc _ _ := .ok (⟨.available 100, .available 40, .available 60, .unavailable .unsupported⟩,
    .available [⟨7, .agent, .available 5⟩])
  nvidiaSmiXml _ _ := .error .deviceCount
  nvidiaSmiCsv _ _ _ := .error .deviceCount

theorem sampled_as_reported_prompt :
    ∃ report batches s', runSamples prompt steady threeTicks 4 0 = .ok (some (report, batches), s') ∧
      report.complete = true ∧ ∀ k < report.expectedTicks,
        batches.countP (fun b => k * 10 ≤ b.started ∧ b.ended < min ((k + 1) * 10) 28) = 1 := by
  have hcomplete : ((runSamples prompt steady threeTicks 4 0).toOption.bind fun r =>
      r.1.map fun r => r.1.complete) = some true := by decide +kernel
  generalize hrun : runSamples prompt steady threeTicks 4 0 = result at hcomplete
  rcases result with e | ⟨- | ⟨report, batches⟩, s'⟩
  · exact absurd hcomplete (by simp [Except.toOption])
  · exact absurd hcomplete (by simp [Except.toOption])
  · have hdone : report.complete = true := Option.some.inj hcomplete
    exact ⟨report, batches, s', rfl, hdone,
      ((sampled_as_reported prompt_clock hrun).2.2.2.1.1 hdone).1⟩

end Platform

end Tensorplate
