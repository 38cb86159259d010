import Tensorplate.Lib.Runs
import Tensorplate.Serving.Model.AsyncPolicy

/-!
# The async-policy store over a run

The store is consistent when its index and its list hold the same entries,
its counters are the numbers of entries, every result it was given is held
by one entry, released once or handed out once, and no entry was removed
for its age too early. A call that changes or removes one entry keeps this
when it adjusts the counters by that entry; three calls do not always, and
`Regular` excludes exactly where they go wrong.
-/

namespace Tensorplate

namespace AsyncPolicy

open Lib

/-! ## Consistency -/

/-- The result an entry holds. -/
def number (e : Entry) : List ℕ := (e.result.map InferResult.number).toList

/-- The results the entries hold. -/
def held (entries : List Entry) : List ℕ := entries.flatMap number

/-- One, if an entry has a status. -/
def one (e : Entry) (status : AsyncStatus) : ℕ := if e.status = status then 1 else 0

/-- The number of entries with a status. -/
def tally (entries : List Entry) (status : AsyncStatus) : ℕ :=
  entries.countP fun e => e.status = status

theorem tally_append (front back : List Entry) (status : AsyncStatus) :
    tally (front ++ back) status = tally front status + tally back status :=
  List.countP_append

theorem tally_cons (e : Entry) (back : List Entry) (status : AsyncStatus) :
    tally (e :: back) status = one e status + tally back status := by
  unfold tally one
  rw [List.countP_cons, Nat.add_comm]
  simp

theorem held_append (front back : List Entry) : held (front ++ back) = held front ++ held back :=
  List.flatMap_append

theorem held_cons (e : Entry) (back : List Entry) : held (e :: back) = number e ++ held back :=
  List.flatMap_cons

/-- **The store's state agrees with itself.** -/
structure Consistent (s : AsyncPolicyStore) : Prop where
  index : s.byId = s.entries.map fun e => (e.requestId, e.address)
  ids : (s.entries.map Entry.requestId).Nodup
  addresses : (s.entries.map Entry.address).Nodup
  fresh : ∀ e ∈ s.entries, e.address < s.added
  pending : s.counts.pending = tally s.entries .pending
  inFlight : s.counts.inFlight = tally s.entries .inFlight
  completed : s.counts.completed = tally s.entries .completed
  results : ∀ e ∈ s.entries, e.result.isSome = true ↔ e.status = .completed
  stamped : ∀ e ∈ s.entries, e.status = .completed ∨ e.status = .failed → e.completedAt = e.endedAt
  living : ∀ e ∈ s.entries, e.status ≠ .expired
  account : ∀ n, s.released.count n + s.taken.count n + (held s.entries).count n =
    if n < s.published then 1 else 0
  aged : ∀ p ∈ s.aged, p.2 - p.1.endedAt > s.config.ttl

/-- One entry of the store was changed. -/
structure Replaced (s s' : AsyncPolicyStore) (front : List Entry) (e e' : Entry)
    (back : List Entry) : Prop where
  before : s.entries = front ++ e :: back
  after : s'.entries = front ++ e' :: back
  requestId : e'.requestId = e.requestId
  address : e'.address = e.address
  byId : s'.byId = s.byId
  added : s'.added = s.added
  config : s'.config = s.config
  aged : s'.aged = s.aged
  pending : s'.counts.pending + one e .pending = s.counts.pending + one e' .pending
  inFlight : s'.counts.inFlight + one e .inFlight = s.counts.inFlight + one e' .inFlight
  completed : s'.counts.completed + one e .completed = s.counts.completed + one e' .completed
  results : e'.result.isSome = true ↔ e'.status = .completed
  stamped : e'.status = .completed ∨ e'.status = .failed → e'.completedAt = e'.endedAt
  living : e'.status ≠ .expired
  account : ∀ n, s'.released.count n + s'.taken.count n + (number e').count n +
    (if n < s.published then 1 else 0) =
      s.released.count n + s.taken.count n + (number e).count n +
        (if n < s'.published then 1 else 0)

/-- One entry of the store was removed. -/
structure Removed (s s' : AsyncPolicyStore) (front : List Entry) (e : Entry) (back : List Entry) :
    Prop where
  before : s.entries = front ++ e :: back
  after : s'.entries = front ++ back
  byId : s'.byId = s.byId.filter fun p => p.1 ≠ e.requestId
  added : s'.added = s.added
  config : s'.config = s.config
  published : s'.published = s.published
  pending : s'.counts.pending + one e .pending = s.counts.pending
  inFlight : s'.counts.inFlight + one e .inFlight = s.counts.inFlight
  completed : s'.counts.completed + one e .completed = s.counts.completed
  account : ∀ n, s'.released.count n + s'.taken.count n =
    s.released.count n + s.taken.count n + (number e).count n
  aged : ∀ p ∈ s'.aged, p ∈ s.aged ∨ p.2 - p.1.endedAt > s.config.ttl

section

variable {s s' : AsyncPolicyStore} {front back : List Entry} {e e' : Entry}

/-- **A change that adjusts the counters keeps the store consistent.** -/
theorem Consistent.replaced (h : Consistent s) (r : Replaced s s' front e e' back) :
    Consistent s' := by
  have hall : ∀ {P : Entry → Prop}, (∀ x ∈ s.entries, P x) → P e' → ∀ x ∈ s'.entries, P x := by
    intro P hP he' x hx
    rw [r.after, List.mem_append, List.mem_cons] at hx
    rcases hx with hx | rfl | hx
    · exact hP x (by rw [r.before]; exact List.mem_append_left _ hx)
    · exact he'
    · exact hP x (by rw [r.before]; exact List.mem_append_right _ (List.mem_cons_of_mem _ hx))
  have he : e ∈ s.entries := by
    rw [r.before]
    exact List.mem_append_right _ List.mem_cons_self
  refine
    { index := ?_, ids := ?_, addresses := ?_, fresh := ?_, pending := ?_, inFlight := ?_
      completed := ?_, results := hall h.results r.results, stamped := hall h.stamped r.stamped
      living := hall h.living r.living, account := ?_, aged := ?_ }
  · rw [r.byId, h.index, r.before, r.after]
    simp only [List.map_append, List.map_cons, r.requestId, r.address]
  · have := h.ids
    rw [r.before, List.map_append, List.map_cons] at this
    rw [r.after, List.map_append, List.map_cons, r.requestId]
    exact this
  · have := h.addresses
    rw [r.before, List.map_append, List.map_cons] at this
    rw [r.after, List.map_append, List.map_cons, r.address]
    exact this
  · rw [r.added]
    exact hall h.fresh (by rw [r.address]; exact h.fresh e he)
  · have h₁ := h.pending
    have h₂ := r.pending
    rw [r.before, tally_append, tally_cons] at h₁
    rw [r.after, tally_append, tally_cons]
    omega
  · have h₁ := h.inFlight
    have h₂ := r.inFlight
    rw [r.before, tally_append, tally_cons] at h₁
    rw [r.after, tally_append, tally_cons]
    omega
  · have h₁ := h.completed
    have h₂ := r.completed
    rw [r.before, tally_append, tally_cons] at h₁
    rw [r.after, tally_append, tally_cons]
    omega
  · intro n
    have h₁ := h.account n
    have h₂ := r.account n
    rw [r.before, held_append, held_cons] at h₁
    rw [r.after, held_append, held_cons]
    simp only [List.count_append] at h₁ ⊢
    omega
  · rw [r.aged, r.config]
    exact h.aged

/-- **A removal that adjusts the counters keeps the store consistent.** -/
theorem Consistent.removed (h : Consistent s) (r : Removed s s' front e back) : Consistent s' := by
  have hsub : s'.entries.Sublist s.entries := by
    rw [r.before, r.after]
    exact (List.Sublist.refl front).append (List.sublist_cons_self e back)
  have hall : ∀ {P : Entry → Prop}, (∀ x ∈ s.entries, P x) → ∀ x ∈ s'.entries, P x :=
    fun hP x hx => hP x (hsub.subset hx)
  refine
    { index := ?_, ids := h.ids.sublist (hsub.map _), addresses := h.addresses.sublist (hsub.map _)
      fresh := by rw [r.added]; exact hall h.fresh
      pending := ?_, inFlight := ?_, completed := ?_, results := hall h.results
      stamped := hall h.stamped, living := hall h.living, account := ?_, aged := ?_ }
  · have hids := h.ids
    rw [r.before, List.map_append, List.map_cons] at hids
    have hout : ∀ x ∈ front ++ back, x.requestId ≠ e.requestId := by
      intro x hx heq
      have hmiddle := (List.perm_middle.nodup_iff.1 hids)
      rw [List.nodup_cons] at hmiddle
      refine hmiddle.1 ?_
      rw [← List.map_append, ← heq]
      exact List.mem_map_of_mem hx
    rw [r.byId, h.index, r.before, r.after, List.map_append, List.map_cons, List.filter_append,
      List.filter_cons_of_neg (by simp), ← List.filter_append, ← List.map_append]
    refine List.filter_eq_self.2 ?_
    intro p hp
    obtain ⟨x, hx, rfl⟩ := List.mem_map.1 hp
    simpa using hout x hx
  · have h₁ := h.pending
    have h₂ := r.pending
    rw [r.before, tally_append, tally_cons] at h₁
    rw [r.after, tally_append]
    omega
  · have h₁ := h.inFlight
    have h₂ := r.inFlight
    rw [r.before, tally_append, tally_cons] at h₁
    rw [r.after, tally_append]
    omega
  · have h₁ := h.completed
    have h₂ := r.completed
    rw [r.before, tally_append, tally_cons] at h₁
    rw [r.after, tally_append]
    omega
  · intro n
    have h₁ := h.account n
    have h₂ := r.account n
    rw [r.before, held_append, held_cons] at h₁
    rw [r.after, held_append, r.published]
    simp only [List.count_append] at h₁ ⊢
    omega
  · intro p hp
    rw [r.config]
    rcases r.aged p hp with hp | hp
    · exact h.aged p hp
    · exact hp

/-! ## One entry in its place -/

/-- The entry that the index leads to. -/
theorem find_split {requestId : String} (hfind : s.find requestId = some e) :
    ∃ front back, s.entries = front ++ e :: back := by
  unfold AsyncPolicyStore.find at hfind
  obtain ⟨p, -, hp⟩ := Option.bind_eq_some_iff.1 hfind
  obtain ⟨front, back, hsplit⟩ := List.append_of_mem (List.mem_of_find?_eq_some hp)
  exact ⟨front, back, hsplit⟩

/-- The other entries have other addresses. -/
theorem Consistent.address_ne (h : Consistent s) (hs : s.entries = front ++ e :: back) :
    ∀ x ∈ front ++ back, x.address ≠ e.address := by
  intro x hx heq
  have haddr := h.addresses
  rw [hs, List.map_append, List.map_cons] at haddr
  have hmiddle := List.nodup_cons.1 (List.perm_middle.nodup_iff.1 haddr)
  rw [← List.map_append] at hmiddle
  exact hmiddle.1 (by rw [← heq]; exact List.mem_map_of_mem hx)

theorem Consistent.put_entries (h : Consistent s) (hs : s.entries = front ++ e :: back)
    (ha : e'.address = e.address) : (s.put e').entries = front ++ e' :: back := by
  have hkeep : ∀ l : List Entry, (∀ x ∈ l, x ∈ front ++ back) →
      l.map (fun x => if x.address = e'.address then e' else x) = l := by
    intro l hl
    conv_rhs => rw [← List.map_id l]
    refine List.map_congr_left fun x hx => ?_
    rw [if_neg (by rw [ha]; exact h.address_ne hs x (hl x hx))]
    rfl
  unfold AsyncPolicyStore.put
  dsimp only
  rw [hs, List.map_append, List.map_cons, if_pos ha.symm,
    hkeep front fun x hx => List.mem_append_left _ hx,
    hkeep back fun x hx => List.mem_append_right _ hx]

theorem Consistent.erase_entries (h : Consistent s) (hs : s.entries = front ++ e :: back) :
    (s.erase e).entries = front ++ back := by
  unfold AsyncPolicyStore.erase
  dsimp only
  rw [hs, List.filter_append, List.filter_cons_of_neg (by simp), ← List.filter_append]
  refine List.filter_eq_self.2 ?_
  intro x hx
  simpa using h.address_ne hs x hx

/-- An entry is counted. -/
theorem Consistent.counted (h : Consistent s) (hs : s.entries = front ++ e :: back) :
    one e .pending ≤ s.counts.pending ∧ one e .inFlight ≤ s.counts.inFlight ∧
      one e .completed ≤ s.counts.completed := by
  have h₁ := h.pending
  have h₂ := h.inFlight
  have h₃ := h.completed
  rw [hs, tally_append, tally_cons] at h₁ h₂ h₃
  exact ⟨by omega, by omega, by omega⟩

/-- An entry that leaves its status is taken off its counter. -/
theorem leave_counts {c : CountSnapshot} (hp : one e .pending ≤ c.pending)
    (hf : one e .inFlight ≤ c.inFlight) :
    (c.leave e.status).pending + one e .pending = c.pending ∧
      (c.leave e.status).inFlight + one e .inFlight = c.inFlight ∧
      (c.leave e.status).completed = c.completed := by
  unfold one at hp hf ⊢
  unfold CountSnapshot.leave
  cases hst : e.status <;> simp_all

theorem number_eq_nil (h : e.result.isSome = true ↔ e.status = .completed)
    (hne : e.status ≠ .completed) : e.result = none ∧ number e = [] := by
  have hnone : e.result = none := by
    cases hr : e.result with
    | none => rfl
    | some r => exact absurd (h.1 (by rw [hr]; rfl)) hne
  refine ⟨hnone, ?_⟩
  unfold number
  rw [hnone]
  rfl

/-! ## The calls that change an entry -/

theorem Consistent.markInFlight (h : Consistent s) (requestId : String) :
    Consistent (s.markInFlight requestId) := by
  unfold AsyncPolicyStore.markInFlight
  cases hfind : s.find requestId with
  | none => exact h
  | some e =>
    dsimp only
    split_ifs with hst
    · obtain ⟨front, back, hs⟩ := find_split hfind
      obtain ⟨hp, -, -⟩ := h.counted hs
      have hres := number_eq_nil (h.results e (by rw [hs]; simp)) (by rw [hst]; simp)
      have r : Replaced s { s.put { e with status := .inFlight } with
          counts := { s.counts with
            pending := s.counts.pending - 1
            inFlight := s.counts.inFlight + 1 } } front e { e with status := .inFlight } back :=
        { before := hs, after := h.put_entries hs rfl, requestId := rfl, address := rfl
          byId := rfl, added := rfl, config := rfl, aged := rfl
          pending := by
            simp only [one, hst, if_pos] at hp ⊢
            simp
            omega
          inFlight := by simp [one, hst]
          completed := by simp [one, hst]
          results := by simp [hres.1]
          stamped := by simp
          living := by simp
          account := fun n => rfl }
      exact h.replaced r
    · exact h

theorem Consistent.publishFailure (h : Consistent s) (requestId : String) (error : Error) (now : ℤ)
    (hopen : ∀ e, s.find requestId = some e → e.status ≠ .completed) :
    Consistent (s.publishFailure requestId error now).1 := by
  unfold AsyncPolicyStore.publishFailure
  cases hfind : s.find requestId with
  | none => exact h
  | some e =>
    dsimp only
    split_ifs with hst
    · exact h
    · obtain ⟨front, back, hs⟩ := find_split hfind
      obtain ⟨hp, hf, -⟩ := h.counted hs
      obtain ⟨lp, lf, lc⟩ := leave_counts hp hf
      have hne := hopen e hfind
      have hres := number_eq_nil (h.results e (by rw [hs]; simp)) hne
      have r : Replaced s { s.put { e with
            status := .failed, error := some error, completedAt := now, endedAt := now } with
          counts := { s.counts.leave e.status with
            failed := (s.counts.leave e.status).failed + 1 } } front e { e with
            status := .failed, error := some error, completedAt := now, endedAt := now } back :=
        { before := hs, after := h.put_entries hs rfl, requestId := rfl, address := rfl
          byId := rfl, added := rfl, config := rfl, aged := rfl
          pending := lp.trans (by simp [one])
          inFlight := lf.trans (by simp [one])
          completed := by
            show (s.counts.leave e.status).completed + one e .completed = _
            rw [lc]
            simp [one, hne]
          results := by simp [hres.1]
          stamped := by simp
          living := by simp
          account := fun n => rfl }
      exact h.replaced r

/-- The number after the last. -/
theorem count_published (n published : ℕ) :
    [published].count n + (if n < published then 1 else 0) = if n < published + 1 then 1 else 0 := by
  rw [List.count_singleton]
  rcases Nat.lt_trichotomy n published with hlt | rfl | hgt
  · have : (published == n) = false := beq_eq_false_iff_ne.2 (by omega)
    simp only [this, Bool.false_eq_true, if_false, if_pos hlt, if_pos (Nat.lt_succ_of_lt hlt)]
  · simp
  · have : (published == n) = false := beq_eq_false_iff_ne.2 (by omega)
    have hnot : ¬ n < published + 1 := by omega
    simp only [this, Bool.false_eq_true, if_false, if_neg (Nat.not_lt.2 (Nat.le_of_lt hgt)),
      if_neg hnot]

/-- A result that is not stored is given back at once. -/
theorem Consistent.giveBack (h : Consistent s) {result : InferResult}
    (hn : result.number = s.published) :
    Consistent (AsyncPolicyStore.releaseResult { s with published := s.published + 1 } result) :=
  { h with
    account := by
      intro n
      have h₁ := h.account n
      have h₂ := count_published n s.published
      show (s.released ++ [result.number]).count n + s.taken.count n + (held s.entries).count n =
        if n < s.published + 1 then 1 else 0
      rw [List.count_append, hn]
      omega }

theorem Consistent.publishResult (h : Consistent s) (requestId : String) (result : InferResult)
    (now : ℤ) (hopen : ∀ e, s.find requestId = some e → e.status ≠ .completed) :
    Consistent (s.publishResult requestId result now).1 := by
  unfold AsyncPolicyStore.publishResult
  dsimp only
  have hfind' : AsyncPolicyStore.find { s with published := s.published + 1 } requestId =
    s.find requestId := rfl
  rw [hfind']
  cases hfind : s.find requestId with
  | none => exact h.giveBack rfl
  | some e =>
    dsimp only
    split_ifs with hst
    · exact h.giveBack rfl
    · obtain ⟨front, back, hs⟩ := find_split hfind
      obtain ⟨hp, hf, -⟩ := h.counted hs
      obtain ⟨lp, lf, lc⟩ := leave_counts hp hf
      have hne := hopen e hfind
      have hres := number_eq_nil (h.results e (by rw [hs]; simp)) hne
      have r : Replaced s { AsyncPolicyStore.put { s with published := s.published + 1 } { e with
            status := .completed, result := some { result with number := s.published }
            completedAt := now, endedAt := now } with
          counts := { s.counts.leave e.status with
            completed := (s.counts.leave e.status).completed + 1 } } front e { e with
            status := .completed, result := some { result with number := s.published }
            completedAt := now, endedAt := now } back :=
        { before := hs, after := h.put_entries hs rfl, requestId := rfl, address := rfl
          byId := rfl, added := rfl, config := rfl, aged := rfl
          pending := lp.trans (by simp [one])
          inFlight := lf.trans (by simp [one])
          completed := by
            show (s.counts.leave e.status).completed + 1 + one e .completed = _
            rw [lc]
            simp [one, hne]
          results := by simp
          stamped := by simp
          living := by simp
          account := by
            intro n
            show s.released.count n + s.taken.count n + [s.published].count n + _ =
              s.released.count n + s.taken.count n + (number e).count n +
                if n < s.published + 1 then 1 else 0
            have := count_published n s.published
            rw [hres.2, List.count_nil]
            omega }
      exact h.replaced r

/-- The results a store has let go of once it gave up an entry's. -/
theorem count_releaseHeld (s : AsyncPolicyStore) (e : Entry) (n : ℕ) :
    (s.releaseHeld e).released.count n = s.released.count n + (number e).count n := by
  unfold AsyncPolicyStore.releaseHeld number
  cases e.result with
  | none => simp
  | some r =>
    show (s.released ++ [r.number]).count n = _
    rw [List.count_append]
    rfl

theorem releaseHeld_eq (s : AsyncPolicyStore) (e : Entry) :
    s.releaseHeld e = { s with released := (s.releaseHeld e).released } := by
  unfold AsyncPolicyStore.releaseHeld
  cases e.result with
  | none => rfl
  | some r => rfl

/-- A completed entry ends another way: its result is given back. -/
theorem Consistent.withdraw (h : Consistent s) (hs : s.entries = front ++ e :: back)
    (hst : e.status = .completed) {status : AsyncStatus} (hne : status ≠ .completed)
    (hp : status ≠ .pending) (hf : status ≠ .inFlight) (hx : status ≠ .expired)
    (hfail : status ≠ .failed) (now : ℤ) {c : CountSnapshot} (cp : c.pending = s.counts.pending)
    (cf : c.inFlight = s.counts.inFlight) (cc : c.completed = s.counts.completed - 1) :
    Replaced s { (s.releaseHeld e).put { e with status := status, endedAt := now, result := none }
      with counts := c } front e { e with status := status, endedAt := now, result := none }
      back := by
  obtain ⟨-, -, hc⟩ := h.counted hs
  have hafter : ((s.releaseHeld e).put
      { e with status := status, endedAt := now, result := none }).entries =
        front ++ { e with status := status, endedAt := now, result := none } :: back := by
    rw [releaseHeld_eq]
    exact h.put_entries hs rfl
  have hone : one e .completed = 1 := by simp [one, hst]
  rw [hone] at hc
  refine
    { before := hs, after := hafter, requestId := rfl, address := rfl
      byId := by rw [releaseHeld_eq]; rfl
      added := by rw [releaseHeld_eq]; rfl
      config := by rw [releaseHeld_eq]; rfl
      aged := by rw [releaseHeld_eq]; rfl
      pending := ?_, inFlight := ?_, completed := ?_
      results := by simp [hne]
      stamped := by simp [hne, hfail]
      living := hx
      account := ?_ }
  · show c.pending + one e .pending = _
    rw [cp]
    simp [one, hst, hp]
  · show c.inFlight + one e .inFlight = _
    rw [cf]
    simp [one, hst, hf]
  · show c.completed + one e .completed = _
    rw [cc, hone]
    simp only [one, hne, if_false]
    omega
  · intro n
    have hcount := count_releaseHeld s e n
    have htaken : (s.releaseHeld e).taken = s.taken := by rw [releaseHeld_eq]
    have hpub : (s.releaseHeld e).published = s.published := by rw [releaseHeld_eq]
    show (s.releaseHeld e).released.count n + (s.releaseHeld e).taken.count n + [].count n + _ =
      s.released.count n + s.taken.count n + (number e).count n +
        if n < (s.releaseHeld e).published then 1 else 0
    rw [hcount, htaken, hpub, List.count_nil]
    omega

/-- An entry that holds no result ends. -/
theorem Consistent.ended (h : Consistent s) (hs : s.entries = front ++ e :: back)
    (hst : e.status ≠ .completed) {status : AsyncStatus} (hne : status ≠ .completed)
    (hp : status ≠ .pending) (hf : status ≠ .inFlight) (hx : status ≠ .expired)
    (hfail : status ≠ .failed) (now : ℤ) {c : CountSnapshot}
    (cp : c.pending = (s.counts.leave e.status).pending)
    (cf : c.inFlight = (s.counts.leave e.status).inFlight)
    (cc : c.completed = (s.counts.leave e.status).completed) :
    Replaced s { s.put { e with status := status, endedAt := now } with counts := c } front e
      { e with status := status, endedAt := now } back := by
  obtain ⟨hp', hf', -⟩ := h.counted hs
  obtain ⟨lp, lf, lc⟩ := leave_counts hp' hf'
  have hres := number_eq_nil (h.results e (by rw [hs]; simp)) hst
  refine
    { before := hs, after := h.put_entries hs rfl, requestId := rfl, address := rfl
      byId := rfl, added := rfl, config := rfl, aged := rfl
      pending := ?_, inFlight := ?_, completed := ?_
      results := by simp [hres.1, hne]
      stamped := by simp [hne, hfail]
      living := hx
      account := fun n => rfl }
  · show c.pending + one e .pending = _
    rw [cp, lp]
    simp [one, hp]
  · show c.inFlight + one e .inFlight = _
    rw [cf, lf]
    simp [one, hf]
  · show c.completed + one e .completed = _
    rw [cc, lc]
    simp [one, hst, hne]

theorem Consistent.cancel (h : Consistent s) (requestId : String) (now : ℤ) :
    Consistent (s.cancel requestId now).1 := by
  unfold AsyncPolicyStore.cancel
  cases hfind : s.find requestId with
  | none => exact h
  | some e =>
    obtain ⟨front, back, hs⟩ := find_split hfind
    dsimp only
    split_ifs with hst hcomp
    · exact h
    · refine h.replaced (h.withdraw hs hcomp (by simp) (by simp) (by simp) (by simp) (by simp) now
        ?_ ?_ ?_)
      · rw [hcomp]
        rfl
      · rw [hcomp]
        rfl
      · rw [hcomp]
        rfl
    · exact h.replaced (h.ended hs hcomp (by simp) (by simp) (by simp) (by simp) (by simp) now rfl
        rfl rfl)

/-- An entry becomes stale in its place. -/
theorem Consistent.toStale (h : Consistent s) (hs : s.entries = front ++ e :: back) (now : ℤ) :
    Consistent (s.toStale e now) ∧ ∃ e', (s.toStale e now).entries = front ++ e' :: back := by
  have he := h.results e (by rw [hs]; simp)
  have hr : ∃ e', Replaced s (s.toStale e now) front e e' back := by
    unfold AsyncPolicyStore.toStale
    dsimp only
    split_ifs with hcomp
    · refine ⟨_, h.withdraw hs hcomp.1 (by simp) (by simp) (by simp) (by simp) (by simp) now
        ?_ ?_ ?_⟩
      · rw [hcomp.1]
        rfl
      · rw [hcomp.1]
        rfl
      · rw [hcomp.1]
        rfl
    · have hne : e.status ≠ .completed := fun hc => hcomp ⟨hc, he.2 hc⟩
      exact ⟨_, h.ended hs hne (by simp) (by simp) (by simp) (by simp) (by simp) now rfl rfl rfl⟩
  obtain ⟨e', r⟩ := hr
  exact ⟨h.replaced r, e', r.after⟩

theorem Consistent.markStale (h : Consistent s) (requestId : String) (now : ℤ) :
    Consistent (s.markStale requestId now).1 := by
  unfold AsyncPolicyStore.markStale
  cases hfind : s.find requestId with
  | none => exact h
  | some e =>
    obtain ⟨front, back, hs⟩ := find_split hfind
    dsimp only
    split_ifs
    · exact h
    · exact (h.toStale hs now).1

/-- The walk of `mark_stale_before_sequence`: what it has not reached is as
it was. -/
theorem consistent_staleBefore (q now : ℤ) : ∀ (rest : List Entry) {s : AsyncPolicyStore}
    {front : List Entry} (ids : List String), Consistent s → s.entries = front ++ rest →
      Consistent (rest.foldl (AsyncPolicyStore.staleBefore q now) (s, ids)).1 := by
  intro rest
  induction rest with
  | nil =>
    intro s front ids h _
    exact h
  | cons e rest ih =>
    intro s front ids h hs
    have hskip : s.entries = (front ++ [e]) ++ rest := by
      rw [hs, List.append_assoc]
      rfl
    have hstep : ∀ ids', Consistent (rest.foldl (AsyncPolicyStore.staleBefore q now)
        (s.toStale e now, ids')).1 := by
      intro ids'
      obtain ⟨hstale, e', hafter⟩ := h.toStale hs now
      have hnext : (s.toStale e now).entries = (front ++ [e']) ++ rest := by
        rw [hafter, List.append_assoc]
        rfl
      exact ih ids' hstale hnext
    rw [List.foldl_cons]
    unfold AsyncPolicyStore.staleBefore
    split_ifs
    · exact ih ids h hskip
    · exact hstep _
    · exact hstep _
    · exact ih ids h hskip

/-! ## The calls that add or remove an entry -/

theorem Consistent.addPending (h : Consistent s) (request : InferRequest) (now : ℤ) :
    Consistent (s.addPending request now).1 := by
  unfold AsyncPolicyStore.addPending
  split_ifs with hfull hdup
  · exact h
  · exact h
  · have hnew : ∀ e ∈ s.entries, e.requestId ≠ request.requestId := by
      intro e he heq
      refine hdup (List.any_eq_true.2 ⟨(e.requestId, e.address), ?_, by simpa using heq⟩)
      rw [h.index]
      exact List.mem_map_of_mem he
    have hall : ∀ {P : Entry → Prop} {e : Entry}, (∀ x ∈ s.entries, P x) → P e →
        ∀ x ∈ s.entries ++ [e], P x := by
      intro P e hP he x hx
      rcases List.mem_append.1 hx with hx | hx
      · exact hP x hx
      · rw [List.mem_singleton.1 hx]
        exact he
    refine
      { index := ?_, ids := ?_, addresses := ?_
        fresh := hall (fun x hx => Nat.lt_succ_of_lt (h.fresh x hx)) (Nat.lt_succ_self _)
        pending := ?_, inFlight := ?_, completed := ?_
        results := hall h.results (by simp)
        stamped := hall h.stamped (by simp)
        living := hall h.living (by simp)
        account := ?_, aged := h.aged }
    · dsimp only
      rw [h.index, List.map_append]
      rfl
    · dsimp only
      rw [List.map_append, List.nodup_append]
      refine ⟨h.ids, by simp, ?_⟩
      intro a ha b hb
      obtain ⟨e, he, rfl⟩ := List.mem_map.1 ha
      rw [List.map_singleton, List.mem_singleton] at hb
      rw [hb]
      exact hnew e he
    · dsimp only
      rw [List.map_append, List.nodup_append]
      refine ⟨h.addresses, by simp, ?_⟩
      intro a ha b hb
      obtain ⟨e, he, rfl⟩ := List.mem_map.1 ha
      rw [List.map_singleton, List.mem_singleton] at hb
      rw [hb]
      exact Nat.ne_of_lt (h.fresh e he)
    · dsimp only
      rw [h.pending, tally_append]
      rfl
    · dsimp only
      rw [h.inFlight, tally_append]
      rfl
    · dsimp only
      rw [h.completed, tally_append]
      rfl
    · intro n
      dsimp only
      rw [held_append]
      have := h.account n
      simpa [held, number] using this

theorem evict_aged (s : AsyncPolicyStore) (e : Entry) : (s.evict e).aged = s.aged := by
  unfold AsyncPolicyStore.evict
  rw [releaseHeld_eq]
  rfl

/-- An entry that is neither pending nor in flight is evicted. -/
theorem Consistent.evict (h : Consistent s) (hs : s.entries = front ++ e :: back)
    (hp : e.status ≠ .pending) (hf : e.status ≠ .inFlight) {aged : List (Entry × ℤ)}
    (haged : ∀ p ∈ aged, p ∈ s.aged ∨ p.2 - p.1.endedAt > s.config.ttl) :
    Removed s { s.evict e with aged := aged } front e back := by
  obtain ⟨-, -, hc⟩ := h.counted hs
  have hafter : ((s.releaseHeld e).erase e).entries = front ++ back := by
    rw [releaseHeld_eq]
    exact h.erase_entries hs
  refine
    { before := hs, after := hafter
      byId := by unfold AsyncPolicyStore.evict; rw [releaseHeld_eq]; rfl
      added := by unfold AsyncPolicyStore.evict; rw [releaseHeld_eq]; rfl
      config := by unfold AsyncPolicyStore.evict; rw [releaseHeld_eq]; rfl
      published := by unfold AsyncPolicyStore.evict; rw [releaseHeld_eq]; rfl
      pending := ?_, inFlight := ?_, completed := ?_, account := ?_, aged := haged }
  · unfold AsyncPolicyStore.evict
    dsimp only
    split_ifs <;> simp [one, hp]
  · unfold AsyncPolicyStore.evict
    dsimp only
    split_ifs <;> simp [one, hf]
  · unfold AsyncPolicyStore.evict
    unfold one at hc ⊢
    dsimp only
    split_ifs with hcomp
    · rw [if_pos hcomp] at hc
      show s.counts.completed - 1 + 1 = s.counts.completed
      omega
    · rfl
  · intro n
    have hcount := count_releaseHeld s e n
    have htaken : (s.releaseHeld e).taken = s.taken := by rw [releaseHeld_eq]
    show (s.releaseHeld e).released.count n + (s.releaseHeld e).taken.count n = _
    rw [hcount, htaken]
    omega

theorem Consistent.releaseCompleted (h : Consistent s) (requestId : String)
    (hended : ∀ e, s.find requestId = some e → e.status ≠ .pending ∧ e.status ≠ .inFlight) :
    Consistent (s.releaseCompleted requestId).1 := by
  unfold AsyncPolicyStore.releaseCompleted
  cases hfind : s.find requestId with
  | none => exact h
  | some e =>
    obtain ⟨front, back, hs⟩ := find_split hfind
    obtain ⟨hp, hf⟩ := hended e hfind
    exact h.removed (h.evict hs hp hf fun p hp => Or.inl (evict_aged s e ▸ hp))

theorem Consistent.takeCompletedResult (h : Consistent s) (requestId : String) :
    Consistent (s.takeCompletedResult requestId).1 := by
  unfold AsyncPolicyStore.takeCompletedResult
  cases hfind : s.find requestId with
  | none => exact h
  | some e =>
    obtain ⟨front, back, hs⟩ := find_split hfind
    dsimp only
    cases hres : e.result with
    | none => exact h
    | some result =>
      dsimp only
      split_ifs with hst
      · exact h
      · have hcomp : e.status = .completed := by
          by_contra hne
          exact hst hne
        obtain ⟨-, -, hc⟩ := h.counted hs
        have hone : one e .completed = 1 := by simp [one, hcomp]
        rw [hone] at hc
        have r : Removed s { s.erase e with
            counts := { s.counts with completed := s.counts.completed - 1 }
            taken := s.taken ++ [result.number] } front e back :=
          { before := hs, after := h.erase_entries hs, byId := rfl, added := rfl, config := rfl
            published := rfl
            pending := by simp [one, hcomp]
            inFlight := by simp [one, hcomp]
            completed := by
              rw [hone]
              show s.counts.completed - 1 + 1 = s.counts.completed
              omega
            account := by
              intro n
              show s.released.count n + (s.taken ++ [result.number]).count n = _
              unfold number
              rw [List.count_append, hres]
              exact (Nat.add_assoc _ _ _).symm
            aged := fun p hp => Or.inl hp }
        exact h.removed r

/-! ## The bounds -/

/-- The first loop: an entry that goes is old enough, where no cancelled or
stale one looks older than it is. -/
theorem consistent_evictAged (now : ℤ) : ∀ (rest : List Entry) {s : AsyncPolicyStore}
    {front : List Entry}, Consistent s → s.entries = front ++ rest →
      (∀ e ∈ rest, e.status = .cancelled ∨ e.status = .stale →
        now - e.completedAt > s.config.ttl → now - e.endedAt > s.config.ttl) →
      Consistent (rest.foldl (AsyncPolicyStore.evictIfAged now) s) := by
  intro rest
  induction rest with
  | nil =>
    intro s front h _ _
    exact h
  | cons e rest ih =>
    intro s front h hs hage
    have he : e ∈ s.entries := by
      rw [hs]
      simp
    rw [List.foldl_cons]
    unfold AsyncPolicyStore.evictIfAged
    split_ifs with hold
    · have hlike := hold.1
      have hlong : now - e.endedAt > s.config.ttl := by
        cases hst : e.status with
        | completed => rw [← h.stamped e he (Or.inl hst)]; exact hold.2
        | failed => rw [← h.stamped e he (Or.inr hst)]; exact hold.2
        | cancelled => exact hage e List.mem_cons_self (Or.inl hst) hold.2
        | stale => exact hage e List.mem_cons_self (Or.inr hst) hold.2
        | expired => exact absurd hst (h.living e he)
        | pending => rw [hst] at hlike; simp [AsyncPolicyStore.completedLike] at hlike
        | inFlight => rw [hst] at hlike; simp [AsyncPolicyStore.completedLike] at hlike
      have hp : e.status ≠ .pending := by
        intro hst
        rw [hst] at hlike
        simp [AsyncPolicyStore.completedLike] at hlike
      have hf : e.status ≠ .inFlight := by
        intro hst
        rw [hst] at hlike
        simp [AsyncPolicyStore.completedLike] at hlike
      have r : Removed s { s.evict e with aged := s.aged ++ [(e, now)] } front e rest := by
        refine h.evict hs hp hf ?_
        intro p hmem
        rcases List.mem_append.1 hmem with hmem | hmem
        · exact Or.inl hmem
        · rw [List.mem_singleton.1 hmem]
          exact Or.inr hlong
      refine ih (h.removed r) r.after ?_
      rw [r.config]
      exact fun x hx => hage x (List.mem_cons_of_mem _ hx)
    · have hskip : s.entries = (front ++ [e]) ++ rest := by
        rw [hs, List.append_assoc]
        rfl
      exact ih h hskip fun x hx => hage x (List.mem_cons_of_mem _ hx)

/-- The second loop ends at the cap. -/
theorem evictOldest_le : ∀ (n : ℕ) {s : AsyncPolicyStore}, Consistent s →
    n = tally s.entries .completed → Consistent (s.evictOldest n) ∧
      tally (s.evictOldest n).entries .completed ≤ s.config.maxCompleted := by
  intro n
  induction n with
  | zero =>
    intro s h hn
    refine ⟨h, ?_⟩
    show tally s.entries .completed ≤ _
    omega
  | succ n ih =>
    intro s h hn
    rw [AsyncPolicyStore.evictOldest]
    split_ifs with hover
    · cases hfind : s.entries.find? fun e => e.status = .completed with
      | none =>
        have hzero : tally s.entries .completed = 0 :=
          List.countP_eq_zero.2 (List.find?_eq_none.1 hfind)
        omega
      | some e =>
        have hst : e.status = .completed := by simpa using List.find?_some hfind
        obtain ⟨front, back, hs⟩ := List.append_of_mem (List.mem_of_find?_eq_some hfind)
        have r := h.evict hs (by rw [hst]; simp) (by rw [hst]; simp)
          fun p hp => Or.inl (evict_aged s e ▸ hp)
        have hcount : n = tally (s.evict e).entries .completed := by
          have hafter : (s.evict e).entries = front ++ back := r.after
          rw [hs, tally_append, tally_cons] at hn
          rw [hafter, tally_append]
          have hone : one e .completed = 1 := by simp [one, hst]
          omega
        have hrest := ih (h.removed r) hcount
        have hconfig : (s.evict e).config = s.config := r.config
        rw [hconfig] at hrest
        exact hrest
    · refine ⟨h, ?_⟩
      omega

theorem config_evictAged (now : ℤ) : ∀ (rest : List Entry) (s : AsyncPolicyStore),
    (rest.foldl (AsyncPolicyStore.evictIfAged now) s).config = s.config := by
  intro rest
  induction rest with
  | nil => exact fun _ => rfl
  | cons e rest ih =>
    intro s
    rw [List.foldl_cons, ih]
    unfold AsyncPolicyStore.evictIfAged
    split_ifs
    · unfold AsyncPolicyStore.evict
      rw [releaseHeld_eq]
      rfl
    · rfl

theorem Consistent.cancelAll (h : Consistent s) (now : ℤ) : Consistent (s.cancelAll now) := by
  have hall : ∀ (targets : List String) {s : AsyncPolicyStore}, Consistent s →
      Consistent (targets.foldl (fun s requestId => (s.cancel requestId now).1) s) := by
    intro targets
    induction targets with
    | nil => exact fun h => h
    | cons requestId rest ih => exact fun h => ih (h.cancel requestId now)
  exact hall _ h

/-! ## Runs -/

/-- **Where the store does what it is for.** A publish finds no entry that is
completed already; `release_completed` is not called for an entry that is
pending or in flight; and when `enforce_bounds` looks, no entry that was
cancelled or marked stale has a `completed_at`, zero if it never completed,
that is past its age while its end is not. -/
def Regular (s : AsyncPolicyStore) : StoreCall → Prop
  | .publishResult requestId _ _ => ∀ e ∈ s.find requestId, e.status ≠ .completed
  | .publishFailure requestId _ _ => ∀ e ∈ s.find requestId, e.status ≠ .completed
  | .releaseCompleted requestId =>
    ∀ e ∈ s.find requestId, e.status ≠ .pending ∧ e.status ≠ .inFlight
  | .enforceBounds now => ∀ e ∈ s.entries, e.status = .cancelled ∨ e.status = .stale →
      now - e.completedAt > s.config.ttl → now - e.endedAt > s.config.ttl
  | _ => True

instance decidableRegular (s : AsyncPolicyStore) : (c : StoreCall) → Decidable (Regular s c)
  | .publishResult requestId _ _ =>
    inferInstanceAs (Decidable (∀ e ∈ s.find requestId, e.status ≠ .completed))
  | .publishFailure requestId _ _ =>
    inferInstanceAs (Decidable (∀ e ∈ s.find requestId, e.status ≠ .completed))
  | .releaseCompleted requestId => inferInstanceAs (Decidable
      (∀ e ∈ s.find requestId, e.status ≠ .pending ∧ e.status ≠ .inFlight))
  | .enforceBounds now => inferInstanceAs (Decidable (∀ e ∈ s.entries,
      e.status = .cancelled ∨ e.status = .stale → now - e.completedAt > s.config.ttl →
        now - e.endedAt > s.config.ttl))
  | .addPending _ _ => isTrue trivial
  | .markInFlight _ => isTrue trivial
  | .cancel _ _ => isTrue trivial
  | .markStale _ _ => isTrue trivial
  | .markStaleBeforeSequence _ _ => isTrue trivial
  | .takeCompletedResult _ => isTrue trivial
  | .cancelAll _ => isTrue trivial

theorem Consistent.enforceBounds (h : Consistent s) {now : ℤ} (hr : Regular s (.enforceBounds now)) :
    Consistent (s.enforceBounds now) ∧
      tally (s.enforceBounds now).entries .completed ≤ s.config.maxCompleted := by
  have haged : Consistent (s.evictAged now) :=
    consistent_evictAged now s.entries h (List.nil_append _).symm hr
  have hle := evictOldest_le _ haged rfl
  have hconfig : (s.evictAged now).config = s.config := config_evictAged now s.entries s
  rw [hconfig] at hle
  exact hle

/-- **Every regular call keeps the store consistent.** -/
theorem Consistent.step (h : Consistent s) {c : StoreCall} (hr : Regular s c)
    (hstep : s.step c = some s') : Consistent s' := by
  cases c with
  | addPending request now =>
    obtain rfl := Option.some.inj hstep
    exact h.addPending request now
  | markInFlight requestId =>
    obtain rfl := Option.some.inj hstep
    exact h.markInFlight requestId
  | publishResult requestId result now =>
    obtain rfl := Option.some.inj hstep
    exact h.publishResult requestId result now hr
  | publishFailure requestId error now =>
    obtain rfl := Option.some.inj hstep
    exact h.publishFailure requestId error now hr
  | cancel requestId now =>
    obtain rfl := Option.some.inj hstep
    exact h.cancel requestId now
  | markStale requestId now =>
    obtain rfl := Option.some.inj hstep
    exact h.markStale requestId now
  | markStaleBeforeSequence q now =>
    obtain rfl := Option.some.inj hstep
    exact consistent_staleBefore q now s.entries [] h (List.nil_append _).symm
  | takeCompletedResult requestId =>
    obtain rfl := Option.some.inj hstep
    exact h.takeCompletedResult requestId
  | releaseCompleted requestId =>
    obtain rfl := Option.some.inj hstep
    exact h.releaseCompleted requestId hr
  | enforceBounds now =>
    obtain rfl := Option.some.inj hstep
    exact (h.enforceBounds hr).1
  | cancelAll now =>
    obtain rfl := Option.some.inj hstep
    exact h.cancelAll now

end

/-- A request of an id. -/
def sampleRequest (requestId : String) : InferRequest :=
  { requestId := requestId, endpoint := "infer", inputs := [⟨"x", 0⟩] }

end AsyncPolicy

end Tensorplate
