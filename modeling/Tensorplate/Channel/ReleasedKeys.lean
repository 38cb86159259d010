import Mathlib.Data.Finset.Card
import Mathlib.Data.Finset.Range
import Tensorplate.Channel.Model.ReleasedSessionKeys

/-!
# The record over 64-bit keys

`ReleasedSessionKeys` as the channel holds it: a `std::map` from a run's
first key to its last, both `std::uint64_t`. Its sums are those of the
machine. None of them wraps, so the record on naturals is what the channel
computes: `RunMap.nats_insert`.
-/

namespace Tensorplate

namespace Channel

/-- `runs_`, the map's nodes in the order of their keys. -/
abbrev RunMap := List (UInt64 × UInt64)

namespace RunMap

/-- `upper_bound`: the nodes up to a key and those behind it. -/
def split (runs : RunMap) (key : UInt64) : RunMap × RunMap :=
  (runs.takeWhile fun r => r.1 ≤ key, runs.dropWhile fun r => r.1 ≤ key)

/-- `emplace`, and `insert` of a node: nothing where the map has the key. -/
def place (runs : RunMap) (run : UInt64 × UInt64) : RunMap :=
  if runs.any fun r => r.1 == run.1 then runs
  else (split runs run.1).1 ++ run :: (split runs run.1).2

/-- `erase` and `extract`. -/
def erase (runs : RunMap) (first : UInt64) : RunMap := runs.filter fun r => r.1 != first

/-- `it->second = last`. -/
def assign (runs : RunMap) (first last : UInt64) : RunMap :=
  runs.map fun r => if r.1 = first then (r.1, last) else r

/-- `contains`. -/
def contains (runs : RunMap) (key : UInt64) : Bool :=
  match (split runs key).1.getLast? with
  | none => false
  | some before => before.2 ≥ key

/-- `insert`. The two sums are the machine's. -/
def insert (runs : RunMap) (key : UInt64) : RunMap :=
  let after := (split runs key).2.head?
  let before := (split runs key).1.getLast?
  if before.any fun b => b.2 ≥ key then runs
  else
    let joinsBefore := before.filter fun b => b.2 + 1 == key
    let joinsAfter := after.filter fun a => key + 1 == a.1
    match joinsBefore, joinsAfter with
    | some b, some a => erase (assign runs b.1 a.2) a.1
    | some b, none => assign runs b.1 key
    | none, some a => place (erase runs a.1) (key, a.2)
    | none, none => place runs (key, key)

end RunMap

/-- The record after a sequence of insertions. -/
def recorded (keys : List UInt64) : RunMap := keys.foldl RunMap.insert []

namespace RunMap

/-- A run's keys as numbers. -/
def numbers (r : UInt64 × UInt64) : ℕ × ℕ := (r.1.toNat, r.2.toNat)

/-- The runs of the record on naturals. -/
def nats (runs : RunMap) : List (ℕ × ℕ) := runs.map numbers

section

variable {runs left right : RunMap} {key : UInt64} {r : UInt64 × UInt64}

theorem upperBound_nats (runs : RunMap) (key : UInt64) :
    upperBound (nats runs) key.toNat = (nats (split runs key).1, nats (split runs key).2) := by
  have hle : ((fun r : ℕ × ℕ => decide (r.1 ≤ key.toNat)) ∘ numbers) =
      fun r : UInt64 × UInt64 => decide (r.1 ≤ key) := by
    funext r
    exact decide_eq_decide.2 UInt64.le_iff_toNat_le.symm
  unfold upperBound nats split
  rw [List.takeWhile_map, List.dropWhile_map, hle]

theorem split_append (runs : RunMap) (key : UInt64) :
    (split runs key).1 ++ (split runs key).2 = runs :=
  List.takeWhile_append_dropWhile

/-- **The sum before a key does not wrap**: the run ends below the key. -/
theorem succ_eq_iff {last : UInt64} (h : last < key) :
    last.toNat + 1 < 2 ^ 64 ∧ (last + 1 = key ↔ last.toNat + 1 = key.toNat) := by
  have hlt := UInt64.lt_iff_toNat_lt.1 h
  have hkey := key.toNat_lt
  have hsum : (last + 1).toNat = last.toNat + 1 := by
    rw [UInt64.toNat_add]
    exact Nat.mod_eq_of_lt (by simp; omega)
  refine ⟨by omega, ?_⟩
  rw [← hsum, UInt64.toNat_inj]

theorem contains_nats (runs : RunMap) (key : UInt64) :
    contains runs key = containsKey (nats runs) key.toNat := by
  unfold contains containsKey
  rw [upperBound_nats]
  simp only [nats, List.getLast?_map]
  cases (split runs key).1.getLast? with
  | none => rfl
  | some before => exact decide_eq_decide.2 UInt64.le_iff_toNat_le

theorem assign_run {last : UInt64} (hl : ∀ x ∈ left, x.1 ≠ r.1) (hr : ∀ x ∈ right, x.1 ≠ r.1) :
    assign (left ++ r :: right) r.1 last = left ++ (r.1, last) :: right := by
  have hkeep : ∀ side : RunMap, (∀ x ∈ side, x.1 ≠ r.1) →
      (side.map fun x => if x.1 = r.1 then (x.1, last) else x) = side := by
    intro side hside
    conv_rhs => rw [← List.map_id side]
    exact List.map_congr_left fun x hx => if_neg (hside x hx)
  unfold assign
  rw [List.map_append, List.map_cons, if_pos rfl, hkeep left hl, hkeep right hr]

theorem erase_run (hl : ∀ x ∈ left, x.1 ≠ r.1) (hr : ∀ x ∈ right, x.1 ≠ r.1) :
    erase (left ++ r :: right) r.1 = left ++ right := by
  have hkeep : ∀ side : RunMap, (∀ x ∈ side, x.1 ≠ r.1) →
      (side.filter fun x => x.1 != r.1) = side :=
    fun side hside => List.filter_eq_self.2 fun x hx => by simpa using hside x hx
  unfold erase
  rw [List.filter_append, List.filter_cons_of_neg (by simp), hkeep left hl, hkeep right hr]

theorem place_run (hl : ∀ x ∈ left, x.1 < r.1) (hr : ∀ x ∈ right, r.1 < x.1) :
    place (left ++ right) r = left ++ r :: right := by
  have habsent : (left ++ right).any (fun x => x.1 == r.1) = false := by
    refine List.any_eq_false.2 fun x hx => ?_
    rcases List.mem_append.1 hx with h | h
    · have := hl x h
      simp only [beq_iff_eq]
      exact UInt64.ne_of_lt this
    · have := hr x h
      simp only [beq_iff_eq]
      exact (UInt64.ne_of_lt this).symm
  have hleft : left.takeWhile (fun x => decide (x.1 ≤ r.1)) = left :=
    List.takeWhile_eq_self_iff.2 fun x hx => by simpa using UInt64.le_of_lt (hl x hx)
  have hsplit : split (left ++ right) r.1 = (left, right) := by
    unfold split
    have htake : right.takeWhile (fun x => decide (x.1 ≤ r.1)) = [] := by
      cases right with
      | nil => rfl
      | cons a rest =>
        exact List.takeWhile_cons_of_neg (by simpa using hr a List.mem_cons_self)
    have hdrop : right.dropWhile (fun x => decide (x.1 ≤ r.1)) = right := by
      have := List.takeWhile_append_dropWhile (p := fun x => decide (x.1 ≤ r.1)) (l := right)
      rwa [htake, List.nil_append] at this
    rw [List.takeWhile_append_of_pos (List.takeWhile_eq_self_iff.1 hleft),
      List.dropWhile_append_of_pos (List.takeWhile_eq_self_iff.1 hleft), htake, hdrop,
      List.append_nil]
  unfold place
  rw [habsent, hsplit]
  rfl

theorem contains_eq_any (runs : RunMap) (key : UInt64) :
    contains runs key = ((split runs key).1.getLast?).any fun b => b.2 ≥ key := by
  unfold contains
  cases (split runs key).1.getLast? <;> rfl

/-- The run before a key outside the record ends below it. -/
theorem before_lt (hc : contains runs key = false) {b : UInt64 × UInt64}
    (hb : (split runs key).1.getLast? = some b) : b.2 < key := by
  rw [contains_eq_any, hb] at hc
  simpa using hc

/-- The run behind a key begins above it. -/
theorem after_gt {a : UInt64 × UInt64} (ha : (split runs key).2.head? = some a) : key < a.1 := by
  have := List.head?_dropWhile_not (fun r : UInt64 × UInt64 => decide (r.1 ≤ key)) runs
  rw [show (runs.dropWhile fun r => decide (r.1 ≤ key)).head? = some a from ha] at this
  simpa using this

theorem filter_numbers {node : Option (UInt64 × UInt64)} {p : ℕ × ℕ → Bool}
    {q : UInt64 × UInt64 → Bool} (h : ∀ x, node = some x → p (numbers x) = q x) :
    (node.map numbers).filter p = (node.filter q).map numbers := by
  cases node with
  | none => rfl
  | some x =>
    rw [Option.map_some, Option.filter_some, Option.filter_some, h x rfl]
    split <;> rfl

theorem joinsBefore_nats (hc : contains runs key = false) :
    Channel.joinsBefore (nats runs) key.toNat =
      ((split runs key).1.getLast?.filter fun b => b.2 + 1 == key).map numbers := by
  unfold Channel.joinsBefore
  rw [upperBound_nats, nats, List.getLast?_map]
  refine filter_numbers fun b hb => ?_
  have hsum := (succ_eq_iff (before_lt hc hb)).2
  exact decide_eq_decide.2 hsum.symm

theorem joinsAfter_nats (runs : RunMap) (key : UInt64) :
    Channel.joinsAfter (nats runs) key.toNat =
      ((split runs key).2.head?.filter fun a => key + 1 == a.1).map numbers := by
  unfold Channel.joinsAfter
  rw [upperBound_nats, nats, nats, List.head?_map]
  refine filter_numbers fun a ha => ?_
  have hsum := (succ_eq_iff (after_gt ha)).2
  exact decide_eq_decide.2 hsum.symm

/-- The nodes' keys differ where the runs keep apart. -/
theorem first_lt (h : Separated (nats (left ++ r :: right))) :
    (∀ x ∈ left, x.1 < r.1) ∧ ∀ x ∈ right, r.1 < x.1 := by
  unfold nats at h
  rw [List.map_append, List.map_cons] at h
  obtain ⟨-, hright, hcross⟩ := List.pairwise_append.1 h.2
  constructor
  · intro x hx
    have hgap := hcross (numbers x) (List.mem_map_of_mem hx) (numbers r) List.mem_cons_self
    have hrun := h.1 (numbers x) (List.mem_append_left _ (List.mem_map_of_mem hx))
    refine UInt64.lt_iff_toNat_lt.2 ?_
    dsimp only [numbers] at hgap hrun
    omega
  · intro x hx
    have hgap := (List.pairwise_cons.1 hright).1 (numbers x) (List.mem_map_of_mem hx)
    have hrun := h.1 (numbers r) (List.mem_append_right _ List.mem_cons_self)
    refine UInt64.lt_iff_toNat_lt.2 ?_
    dsimp only [numbers] at hgap hrun
    omega

/-- The runs behind a key all begin above it. -/
theorem split_gt (key : UInt64) (h : Separated (nats runs)) :
    ∀ x ∈ (split runs key).2, key < x.1 := by
  intro x hx
  have hgt := beyond_gt key.toNat h
  rw [upperBound_nats] at hgt
  exact UInt64.lt_iff_toNat_lt.2 (hgt _ (List.mem_map_of_mem hx))

/-- The runs up to a key outside the record begin below it. -/
theorem split_lt (h : Separated (nats runs)) (hc : contains runs key = false) :
    ∀ x ∈ (split runs key).1, x.1 < key := by
  intro x hx
  have hle := upto_le key.toNat (nats runs)
  rw [upperBound_nats] at hle
  have hmem : numbers x ∈ nats runs := by
    rw [← split_append runs key]
    exact List.mem_map_of_mem (List.mem_append_left _ hx)
  have hrun := h.1 _ hmem
  have hle' : x.1.toNat ≤ key.toNat := hle _ (List.mem_map_of_mem hx)
  refine UInt64.lt_iff_toNat_lt.2 (lt_of_le_of_ne hle' fun heq => ?_)
  -- a run that began at the key would hold it
  have hcov : Covers (nats runs) key.toNat :=
    ⟨numbers x, hmem, hle', heq ▸ hrun⟩
  rw [contains_nats, (containsKey_iff h).2 hcov] at hc
  exact absurd hc (by decide)

/-- **The machine's record is the record on naturals**, as long as its runs
keep apart. -/
theorem nats_insert (h : Separated (nats runs)) :
    nats (insert runs key) = insertRun (nats runs) key.toNat := by
  have hbeyond := split_gt key h
  unfold insert insertRun
  dsimp only
  rw [← contains_nats, ← contains_eq_any]
  by_cases hc : contains runs key = true
  · rw [if_pos hc, if_pos hc]
  rw [Bool.not_eq_true] at hc
  rw [hc, if_neg Bool.false_ne_true, if_neg Bool.false_ne_true]
  rw [joinsBefore_nats hc, joinsAfter_nats, upperBound_nats]
  have hnew := split_lt h hc
  have happ := split_append runs key
  generalize (split runs key).1 = upto at *
  generalize (split runs key).2 = beyond at *
  subst happ
  dsimp only
  cases hb : upto.getLast?.filter fun b => b.2 + 1 == key with
  | some b =>
    obtain ⟨hlast, -⟩ := Option.filter_eq_some_iff.1 hb
    obtain ⟨front, rfl⟩ := List.getLast?_eq_some_iff.1 hlast
    rw [List.append_assoc, List.singleton_append] at h ⊢
    obtain ⟨hfront, hrest⟩ := first_lt h
    have hassign : ∀ last, assign (front ++ b :: beyond) b.1 last =
        front ++ (b.1, last) :: beyond := fun last =>
      assign_run (fun x hx => UInt64.ne_of_lt (hfront x hx))
        fun x hx => (UInt64.ne_of_lt (hrest x hx)).symm
    cases ha : beyond.head?.filter fun a => key + 1 == a.1 with
    | some a =>
      obtain ⟨hhead, -⟩ := Option.filter_eq_some_iff.1 ha
      obtain ⟨rest, rfl⟩ := List.head?_eq_some_iff.1 hhead
      have hsplit : front ++ (b.1, a.2) :: a :: rest = (front ++ [(b.1, a.2)]) ++ a :: rest := by
        rw [List.append_assoc, List.singleton_append]
      have hsep : Separated (nats ((front ++ [b]) ++ a :: rest)) := by
        rwa [List.append_assoc, List.singleton_append]
      obtain ⟨hbefore, hbehind⟩ := first_lt hsep
      dsimp only [Option.map_some]
      rw [hassign, hsplit, erase_run]
      · simp [nats, numbers]
      · intro x hx
        rcases List.mem_append.1 hx with hx | hx
        · exact UInt64.ne_of_lt (hbefore x (List.mem_append_left _ hx))
        · rw [List.mem_singleton.1 hx]
          exact UInt64.ne_of_lt (hbefore b (List.mem_append_right _ List.mem_cons_self))
      · exact fun x hx => (UInt64.ne_of_lt (hbehind x hx)).symm
    | none =>
      dsimp only [Option.map_some, Option.map_none]
      rw [hassign]
      simp [nats, numbers]
  | none =>
    cases ha : beyond.head?.filter fun a => key + 1 == a.1 with
    | some a =>
      obtain ⟨hhead, -⟩ := Option.filter_eq_some_iff.1 ha
      obtain ⟨rest, rfl⟩ := List.head?_eq_some_iff.1 hhead
      obtain ⟨hbefore, hbehind⟩ := first_lt h
      dsimp only [Option.map_some, Option.map_none]
      rw [erase_run (fun x hx => UInt64.ne_of_lt (hbefore x hx))
        fun x hx => (UInt64.ne_of_lt (hbehind x hx)).symm,
        place_run hnew fun x hx => hbeyond x (List.mem_cons_of_mem _ hx)]
      simp [nats, numbers]
    | none =>
      dsimp only [Option.map_none]
      rw [place_run hnew hbeyond]
      simp [nats, numbers]

end

end RunMap

/-! ## What a sequence of insertions leaves -/

/-- The greatest key of a sequence, zero where it is empty. -/
def greatest (keys : List UInt64) : ℕ := (keys.map UInt64.toNat).foldr max 0

/-- The keys below the greatest that were not inserted. -/
def passedOver (keys : List UInt64) : Finset ℕ :=
  (Finset.range (greatest keys)).filter fun k => k ∉ keys.map UInt64.toNat

/-- **No sum wraps** where `key` is inserted: `insert` adds one to the last
key of the run before and to the key itself. -/
def SumsFit (runs : RunMap) (key : UInt64) : Prop :=
  runs.contains key = false →
    (∀ b, (runs.split key).1.getLast? = some b → b.2.toNat + 1 < 2 ^ 64) ∧
      ∀ a, (runs.split key).2.head? = some a → key.toNat + 1 < 2 ^ 64

theorem sumsFit (runs : RunMap) (key : UInt64) : SumsFit runs key := by
  intro hc
  constructor
  · intro b hb
    exact (RunMap.succ_eq_iff (RunMap.before_lt hc hb)).1
  · intro a ha
    exact (RunMap.succ_eq_iff (RunMap.after_gt ha)).1

theorem le_greatest {keys : List UInt64} {key : UInt64} (h : key ∈ keys) :
    key.toNat ≤ greatest keys := by
  induction keys with
  | nil => nomatch h
  | cons k rest ih =>
    have hmax : greatest (k :: rest) = max k.toNat (greatest rest) := rfl
    rcases List.mem_cons.1 h with rfl | h
    · omega
    · have := ih h
      omega

/-- The key right behind a run other than the last is in none of them. -/
theorem not_covers_succ {runs : List (ℕ × ℕ)} (h : Separated runs) {r : ℕ × ℕ} (hr : r ∈ runs) :
    ¬Covers runs (r.2 + 1) := by
  rintro ⟨x, hx, hlow, hhigh⟩
  obtain ⟨left, right, rfl⟩ := List.append_of_mem hr
  obtain ⟨-, hright, hcross⟩ := List.pairwise_append.1 h.2
  rcases List.mem_append.1 hx with hx | hx
  · have := hcross x hx r List.mem_cons_self
    have := h.1 r hr
    omega
  · rcases List.mem_cons.1 hx with rfl | hx
    · omega
    · have := (List.pairwise_cons.1 hright).1 x hx
      omega

/-- **Each run but the last leaves a key behind it**, below the bound and
outside the record. -/
theorem length_le_gaps {runs : List (ℕ × ℕ)} (h : Separated runs) {b : ℕ}
    (hb : ∀ r ∈ runs, r.2 ≤ b) {gaps : Finset ℕ}
    (hgaps : ∀ k, k < b → ¬Covers runs k → k ∈ gaps) : runs.length ≤ gaps.card + 1 := by
  rcases List.eq_nil_or_concat runs with rfl | ⟨front, last, rfl⟩
  · exact Nat.zero_le _
  rw [List.concat_eq_append] at *
  obtain ⟨hfront, -, hcross⟩ := List.pairwise_append.1 h.2
  have hnodup : (front.map fun r => r.2 + 1).Nodup := by
    refine List.pairwise_map.2 (hfront.imp_of_mem fun {x y} _ hy hxy => ?_)
    have := h.1 y (List.mem_append_left _ hy)
    omega
  have hsub : (front.map fun r => r.2 + 1).toFinset ⊆ gaps := by
    intro k hk
    obtain ⟨r, hr, rfl⟩ := List.mem_map.1 (List.mem_toFinset.1 hk)
    have hmem : r ∈ front ++ [last] := List.mem_append_left _ hr
    have hlt := hcross r hr last List.mem_cons_self
    have hlast : last ∈ front ++ [last] := List.mem_append_right _ List.mem_cons_self
    have h₁ := h.1 last hlast
    have h₂ := hb last hlast
    exact hgaps _ (by omega) (not_covers_succ h hmem)
  have hcard := Finset.card_le_card hsub
  rw [List.toFinset_card_of_nodup hnodup, List.length_map] at hcard
  rw [List.length_append, List.length_singleton]
  omega

/-- The record keeps its runs apart and covers what was inserted. -/
theorem recorded_spec (keys : List UInt64) :
    Separated (recorded keys).nats ∧
      ∀ j, Covers (recorded keys).nats j ↔ j ∈ keys.map UInt64.toNat := by
  induction keys using List.reverseRecOn with
  | nil => exact ⟨⟨nofun, List.Pairwise.nil⟩, fun j => ⟨fun h => absurd h not_covers_nil, nofun⟩⟩
  | append_singleton keys key ih =>
    obtain ⟨hsep, hcov⟩ := ih
    have hnats : (recorded (keys ++ [key])).nats = insertRun (recorded keys).nats key.toNat := by
      unfold recorded
      rw [List.foldl_append]
      exact RunMap.nats_insert hsep
    obtain ⟨hsep', hcov'⟩ := @insertRun_spec _ key.toNat hsep
    rw [hnats]
    refine ⟨hsep', fun j => ?_⟩
    rw [hcov', hcov, List.map_append, List.mem_append, List.map_singleton, List.mem_singleton]
    exact Or.comm

theorem contains_recorded (keys : List UInt64) (key : UInt64) :
    (recorded keys).contains key = true ↔ key ∈ keys := by
  obtain ⟨hsep, hcov⟩ := recorded_spec keys
  rw [RunMap.contains_nats, containsKey_iff hsep, hcov]
  constructor
  · intro h
    obtain ⟨k, hk, heq⟩ := List.mem_map.1 h
    rwa [← UInt64.toNat_inj.1 heq]
  · exact fun h => List.mem_map_of_mem h

/-- **The record of released sessions is exact and small.** It holds the
keys inserted and no other; its runs are non-empty, in order and never
touch; no sum of an insertion wraps; and it has at most one run more than
there are keys passed over. -/
theorem recorded_exact (keys : List UInt64) :
    (∀ key, (recorded keys).contains key = true ↔ key ∈ keys) ∧
      (∀ r ∈ recorded keys, r.1 ≤ r.2) ∧
      (recorded keys).Pairwise (fun a b => a.2.toNat + 1 < b.1.toNat) ∧
      (∀ key, SumsFit (recorded keys) key) ∧
      (recorded keys).length ≤ (passedOver keys).card + 1 := by
  obtain ⟨hsep, hcov⟩ := recorded_spec keys
  have hruns : ∀ r ∈ recorded keys, r.1.toNat ≤ r.2.toNat := fun r hr =>
    hsep.1 _ (List.mem_map_of_mem hr)
  refine ⟨contains_recorded keys, fun r hr => UInt64.le_iff_toNat_le.2 (hruns r hr),
    List.pairwise_map.1 hsep.2, sumsFit _, ?_⟩
  have hlen : (recorded keys).nats.length = (recorded keys).length := List.length_map _
  rw [← hlen]
  refine length_le_gaps hsep (b := greatest keys) ?_ fun k hk hno => ?_
  · intro r hr
    have hlast : Covers (recorded keys).nats r.2 := ⟨r, hr, hsep.1 r hr, le_rfl⟩
    obtain ⟨key, hkey, heq⟩ := List.mem_map.1 ((hcov _).1 hlast)
    rw [← heq]
    exact le_greatest hkey
  · exact Finset.mem_filter.2 ⟨Finset.mem_range.2 hk, fun h => hno ((hcov k).2 h)⟩

-- the last key joins no run that begins at zero
example : recorded [18446744073709551615, 0, 2, 1] =
    [(0, 2), (18446744073709551615, 18446744073709551615)] := by decide +kernel

end Channel

end Tensorplate
