import Mathlib.Data.List.Nodup
import Tensorplate.Serving.Model.AsyncPolicy

/-!
# The entries of the async store

The index and the list name the same entries, whatever the counters say:
no id and no address stands twice, and `find` meets the one entry of an id.
Every call but `add_pending` and the two publishing ones leaves entries as
they were, ends them or removes them.
-/

namespace Tensorplate

namespace AsyncPolicy

variable {s s' s'' : AsyncPolicyStore} {e e' f : Entry}

/-- What the index says of an entry. -/
def Entry.key (e : Entry) : String × ℕ := (e.requestId, e.address)

/-- The entry still waits for its outcome. -/
def Entry.live (e : Entry) : Bool := e.status = .pending || e.status = .inFlight

/-- **The index is the list.** -/
structure Keyed (s : AsyncPolicyStore) : Prop where
  index : s.byId = s.entries.map Entry.key
  ids : (s.byId.map Prod.fst).Nodup
  addresses : (s.byId.map Prod.snd).Nodup
  below : ∀ p ∈ s.byId, p.2 < s.added

/-- `e'` is what became of `e` without an outcome. -/
structure Later (e e' : Entry) : Prop where
  key : e'.key = e.key
  result : e'.result = e.result ∨ e'.result = none
  error : e'.error = e.error
  live : e'.live = true → e.live = true

theorem Later.refl (e : Entry) : Later e e := ⟨rfl, Or.inl rfl, rfl, id⟩

theorem Later.trans {e'' : Entry} (h : Later e e') (h' : Later e' e'') : Later e e'' := by
  refine ⟨h'.key.trans h.key, ?_, h'.error.trans h.error, fun hl => h.live (h'.live hl)⟩
  rcases h'.result with hr | hr
  · rw [hr]
    exact h.result
  · exact Or.inr hr

/-- **No outcome was stored and no entry added.** -/
structure Kept (s s' : AsyncPolicyStore) : Prop where
  entries : ∀ e' ∈ s'.entries, ∃ e ∈ s.entries, Later e e'
  index : s'.byId = s'.entries.map Entry.key
  sublist : s'.byId.Sublist s.byId
  added : s'.added = s.added

theorem Kept.refl (h : Keyed s) : Kept s s :=
  ⟨fun e he => ⟨e, he, Later.refl e⟩, h.index, List.Sublist.refl _, rfl⟩

theorem Kept.trans (h : Kept s s') (h' : Kept s' s'') : Kept s s'' := by
  refine ⟨fun e'' he'' => ?_, h'.index, h'.sublist.trans h.sublist, h'.added.trans h.added⟩
  obtain ⟨e', he', hl'⟩ := h'.entries e'' he''
  obtain ⟨e, he, hl⟩ := h.entries e' he'
  exact ⟨e, he, hl.trans hl'⟩

/-- The counters and the records are not read. -/
theorem Kept.congr {t : AsyncPolicyStore} (h : Kept s s') (he : t.entries = s'.entries)
    (hb : t.byId = s'.byId) (ha : t.added = s'.added) : Kept s t := by
  refine ⟨?_, ?_, ?_, ha.trans h.added⟩
  · rw [he]
    exact h.entries
  · rw [hb, he]
    exact h.index
  · rw [hb]
    exact h.sublist

theorem Keyed.kept (h : Keyed s) (hk : Kept s s') : Keyed s' := by
  refine ⟨hk.index, (hk.sublist.map _).nodup h.ids, (hk.sublist.map _).nodup h.addresses, ?_⟩
  intro p hp
  rw [hk.added]
  exact h.below p (hk.sublist.subset hp)

theorem Keyed.mem_index (h : Keyed s) (he : e ∈ s.entries) : e.key ∈ s.byId := by
  rw [h.index]
  exact List.mem_map_of_mem he

/-- One address is one entry. -/
theorem Keyed.eq_of_address (h : Keyed s) (he : e ∈ s.entries) (he' : e' ∈ s.entries)
    (ha : e.address = e'.address) : e = e' := by
  have hn : (s.entries.map Entry.address).Nodup := by
    have := h.addresses
    rwa [h.index, List.map_map] at this
  exact List.inj_on_of_nodup_map hn he he' ha

/-- One id is one entry. -/
theorem Keyed.eq_of_requestId (h : Keyed s) (he : e ∈ s.entries) (he' : e' ∈ s.entries)
    (hi : e.requestId = e'.requestId) : e = e' := by
  have hn : (s.entries.map Entry.requestId).Nodup := by
    have := h.ids
    rwa [h.index, List.map_map] at this
  exact List.inj_on_of_nodup_map hn he he' hi

/-- **`find` meets the entry of its id.** -/
theorem Keyed.find_iff (h : Keyed s) {requestId : String} :
    s.find requestId = some e ↔ e ∈ s.entries ∧ e.requestId = requestId := by
  constructor
  · intro hf
    obtain ⟨p, hp, he⟩ := Option.bind_eq_some_iff.1 hf
    have hmem := List.mem_of_find?_eq_some he
    have ha : e.address = p.2 := by simpa using List.find?_some he
    have hid : p.1 = requestId := by simpa using List.find?_some hp
    have hq := List.mem_of_find?_eq_some hp
    rw [h.index] at hq
    obtain ⟨x, hx, rfl⟩ := List.mem_map.1 hq
    rw [h.eq_of_address hmem hx ha]
    exact ⟨hx, hid⟩
  · rintro ⟨he, rfl⟩
    have hp : s.byId.find? (fun p => decide (p.1 = e.requestId)) = some e.key := by
      refine List.find?_eq_some_iff_append.2 ⟨by simp [Entry.key], ?_⟩
      obtain ⟨front, back, hs⟩ := List.append_of_mem (h.mem_index he)
      refine ⟨front, back, hs, fun q hq => ?_⟩
      have hids := h.ids
      rw [hs, List.map_append, List.map_cons] at hids
      have hne : q.1 ≠ e.requestId := fun heq =>
        List.disjoint_of_nodup_append hids (List.mem_map_of_mem hq)
          (by rw [heq]; exact List.mem_cons_self)
      simpa using hne
    refine Option.bind_eq_some_iff.2 ⟨e.key, hp, ?_⟩
    have hsome : (s.entries.find? fun x => decide (x.address = e.key.2)).isSome = true :=
      List.find?_isSome.2 ⟨e, he, by simp [Entry.key]⟩
    obtain ⟨x, hx⟩ := Option.isSome_iff_exists.1 hsome
    have hxa : x.address = e.address := by
      have hd := List.find?_some hx
      exact of_decide_eq_true hd
    rw [hx, h.eq_of_address (List.mem_of_find?_eq_some hx) he hxa]

theorem Keyed.find_none (h : Keyed s) {requestId : String} :
    s.find requestId = none ↔ ∀ e ∈ s.entries, e.requestId ≠ requestId := by
  constructor
  · intro hn e he hid
    rw [h.find_iff.2 ⟨he, hid⟩] at hn
    exact Option.some_ne_none e hn
  · intro hall
    by_contra hne
    obtain ⟨e, he⟩ := Option.ne_none_iff_exists'.1 hne
    obtain ⟨hmem, hid⟩ := h.find_iff.1 he
    exact hall e hmem hid

/-! ## One entry -/

/-- The list behind `put`. -/
theorem Keyed.map_put (h : Keyed s) (he : e ∈ s.entries) (hk : f.key = e.key) :
    (s.put f).entries.map Entry.key = s.entries.map Entry.key := by
  have ha : f.address = e.address := congrArg Prod.snd hk
  simp only [AsyncPolicyStore.put, List.map_map]
  refine List.map_congr_left fun x hx => ?_
  simp only [Function.comp_apply]
  split
  · rename_i hxa
    rw [hk, h.eq_of_address hx he (hxa.trans ha)]
  · rfl

/-- What stands in the list behind `put`. -/
theorem Keyed.mem_put (h : Keyed s) (he : e ∈ s.entries) (hk : f.key = e.key) {x : Entry} :
    x ∈ (s.put f).entries ↔ x = f ∨ x ∈ s.entries ∧ x ≠ e := by
  have ha : f.address = e.address := congrArg Prod.snd hk
  simp only [AsyncPolicyStore.put, List.mem_map]
  constructor
  · rintro ⟨y, hy, rfl⟩
    split
    · exact Or.inl rfl
    · rename_i hne
      refine Or.inr ⟨hy, ?_⟩
      rintro rfl
      exact hne ha.symm
  · rintro (rfl | ⟨hx, hne⟩)
    · exact ⟨e, he, if_pos ha.symm⟩
    · refine ⟨x, hx, if_neg fun hxa => hne ?_⟩
      exact h.eq_of_address hx he (hxa.trans ha)

theorem Keyed.put (h : Keyed s) (he : e ∈ s.entries) (hl : Later e f) : Kept s (s.put f) := by
  refine ⟨fun x hx => ?_, ?_, List.Sublist.refl _, rfl⟩
  · rcases (h.mem_put he hl.key).1 hx with rfl | ⟨hx, -⟩
    · exact ⟨e, he, hl⟩
    · exact ⟨x, hx, Later.refl x⟩
  · rw [h.map_put he hl.key]
    exact h.index

theorem Keyed.erase (h : Keyed s) (he : e ∈ s.entries) : Kept s (s.erase e) := by
  have hsame : ∀ x ∈ s.entries, (x.requestId = e.requestId ↔ x.address = e.address) := by
    intro x hx
    constructor
    · intro hi
      rw [h.eq_of_requestId hx he hi]
    · intro ha
      rw [h.eq_of_address hx he ha]
  refine ⟨fun x hx => ⟨x, (List.mem_filter.1 hx).1, Later.refl x⟩, ?_, List.filter_sublist, rfl⟩
  simp only [AsyncPolicyStore.erase, h.index, List.filter_map]
  congr 1
  refine List.filter_congr fun x hx => ?_
  simp only [Entry.key, Function.comp_apply, ne_eq, hsame x hx]

theorem mem_erase {x : Entry} :
    x ∈ (s.erase e).entries ↔ x ∈ s.entries ∧ x.address ≠ e.address := by
  simp [AsyncPolicyStore.erase]

theorem releaseHeld_same (s : AsyncPolicyStore) (e : Entry) :
    (s.releaseHeld e).entries = s.entries ∧ (s.releaseHeld e).byId = s.byId ∧
      (s.releaseHeld e).added = s.added := by
  unfold AsyncPolicyStore.releaseHeld AsyncPolicyStore.releaseResult
  split <;> exact ⟨rfl, rfl, rfl⟩

theorem Keyed.congr {t : AsyncPolicyStore} (h : Keyed s) (he : t.entries = s.entries)
    (hb : t.byId = s.byId) (ha : t.added = s.added) : Keyed t :=
  h.kept ((Kept.refl h).congr he hb ha)

theorem Keyed.releaseHeld (h : Keyed s) (e : Entry) : Kept s (s.releaseHeld e) := by
  obtain ⟨he, hb, ha⟩ := releaseHeld_same s e
  exact (Kept.refl h).congr he hb ha

/-! ## The calls -/

theorem Keyed.markInFlight (h : Keyed s) (requestId : String) :
    Kept s (s.markInFlight requestId) := by
  unfold AsyncPolicyStore.markInFlight
  split
  · exact Kept.refl h
  · rename_i e hf
    split
    · rename_i hp
      have hl : Later e { e with status := .inFlight } :=
        ⟨rfl, Or.inl rfl, rfl, fun _ => by simp [Entry.live, hp]⟩
      exact (h.put (h.find_iff.1 hf).1 hl).congr rfl rfl rfl
    · exact Kept.refl h

/-- An entry ends, and gives its result back or keeps it. -/
theorem Keyed.ended (h : Keyed s) (he : e ∈ s.entries) (hk : f.key = e.key)
    (hr : f.result = e.result ∨ f.result = none) (herr : f.error = e.error)
    (hlive : f.live = false) : Kept s ((s.releaseHeld e).put f) := by
  have hrel := h.releaseHeld e
  have he' : e ∈ (s.releaseHeld e).entries := by
    rw [(releaseHeld_same s e).1]
    exact he
  have hl : Later e f := ⟨hk, hr, herr, fun hl => by rw [hlive] at hl; cases hl⟩
  exact hrel.trans ((h.kept hrel).put he' hl)

theorem Keyed.cancel (h : Keyed s) (requestId : String) (now : ℤ) :
    Kept s (s.cancel requestId now).1 := by
  unfold AsyncPolicyStore.cancel
  split
  · exact Kept.refl h
  · rename_i e hf
    have he := (h.find_iff.1 hf).1
    split
    · exact Kept.refl h
    · split
      · have hk := h.ended (f := { e with status := .cancelled, endedAt := now, result := none })
          he rfl (Or.inr rfl) rfl rfl
        exact hk.congr rfl rfl rfl
      · have hl : Later e { e with status := .cancelled, endedAt := now } :=
          ⟨rfl, Or.inl rfl, rfl, fun hl => by cases hl⟩
        exact (h.put he hl).congr rfl rfl rfl

/-- Behind `cancel` no entry of its id waits. -/
theorem Keyed.cancel_ends (h : Keyed s) (requestId : String) (now : ℤ)
    (he' : e' ∈ (s.cancel requestId now).1.entries) (hid : e'.requestId = requestId) :
    e'.live = false := by
  have hkept := h.kept (h.cancel requestId now)
  unfold AsyncPolicyStore.cancel at he' hkept
  split at he'
  · rename_i hn
    exact absurd hid (h.find_none.1 hn e' he')
  · rename_i e hf
    obtain ⟨hmem, rfl⟩ := h.find_iff.1 hf
    have hsome : ∀ x ∈ s.entries, x.requestId = e.requestId → x = e :=
      fun x hx hi => h.eq_of_requestId hx hmem hi
    split at he'
    · rename_i hc
      rw [hsome e' he' hid]
      simp [Entry.live, hc]
    · split at he'
      · have hmem' : e ∈ (s.releaseHeld e).entries := by
          rw [(releaseHeld_same s e).1]
          exact hmem
        rcases ((h.kept (h.releaseHeld e)).mem_put
            (f := { e with status := .cancelled, endedAt := now, result := none }) hmem' rfl).1 he' with rfl | ⟨hx, hne⟩
        · rfl
        · rw [(releaseHeld_same s e).1] at hx
          exact absurd (hsome e' hx hid) hne
      · rcases (h.mem_put (f := { e with status := .cancelled, endedAt := now }) hmem rfl).1 he' with rfl | ⟨hx, hne⟩
        · rfl
        · exact absurd (hsome e' hx hid) hne

/-- Making an entry of `s` stale in what became of `s`. -/
theorem Kept.toStale {e₀ : Entry} (h : Keyed s) (hk : Kept s s') (he₀ : e₀ ∈ s.entries)
    (hin : e₀.key ∈ s'.byId) (now : ℤ) : Kept s (s'.toStale e₀ now) := by
  have hs' := h.kept hk
  -- What stands at the address in `s'` is a later form of the entry.
  obtain ⟨x, hx, hxk⟩ : ∃ x ∈ s'.entries, x.key = e₀.key := by
    rw [hk.index] at hin
    exact List.mem_map.1 hin
  have hput : ∀ {t : AsyncPolicyStore} {e' : Entry}, Kept s t → x ∈ t.entries → Later e₀ e' →
      Kept s (t.put e') := by
    intro t e' ht hxt hl
    have hkt := h.kept ht
    refine ⟨fun y hy => ?_, ?_, ht.sublist, ht.added⟩
    · rcases (hkt.mem_put hxt (hl.key.trans hxk.symm)).1 hy with rfl | ⟨hy, -⟩
      · exact ⟨e₀, he₀, hl⟩
      · exact ht.entries y hy
    · rw [hkt.map_put hxt (hl.key.trans hxk.symm)]
      exact hkt.index
  unfold AsyncPolicyStore.toStale
  dsimp only
  split
  · have hrel := hk.trans (hs'.releaseHeld e₀)
    have hxr : x ∈ (s'.releaseHeld e₀).entries := by
      rw [(releaseHeld_same s' e₀).1]
      exact hx
    have hl : Later e₀ { e₀ with status := .stale, endedAt := now, result := none } :=
      ⟨rfl, Or.inr rfl, rfl, fun hl => by cases hl⟩
    exact (hput hrel hxr hl).congr rfl rfl rfl
  · have hl : Later e₀ { e₀ with status := .stale, endedAt := now } :=
      ⟨rfl, Or.inl rfl, rfl, fun hl => by cases hl⟩
    exact (hput hk hx hl).congr rfl rfl rfl

/-- The keys are as they were. -/
theorem toStale_byId (s : AsyncPolicyStore) (e : Entry) (now : ℤ) :
    (s.toStale e now).byId = s.byId := by
  unfold AsyncPolicyStore.toStale
  dsimp only
  split
  · exact (releaseHeld_same s e).2.1
  · rfl

theorem Keyed.staleBefore (h : Keyed s) (q now : ℤ) : ∀ (rest : List Entry) (s' : AsyncPolicyStore)
    (ids : List String), Kept s s' → s'.byId = s.byId → (∀ e ∈ rest, e ∈ s.entries) →
    Kept s (rest.foldl (AsyncPolicyStore.staleBefore q now) (s', ids)).1 := by
  intro rest
  induction rest with
  | nil =>
    intro s' ids hk _ _
    exact hk
  | cons e rest ih =>
    intro s' ids hk hb hmem
    have he := hmem e List.mem_cons_self
    have hrest : ∀ x ∈ rest, x ∈ s.entries := fun x hx => hmem x (List.mem_cons_of_mem e hx)
    rw [List.foldl_cons, AsyncPolicyStore.staleBefore]
    split
    · exact ih s' ids hk hb hrest
    · split
      · have hin : e.key ∈ s'.byId := by
          rw [hb]
          exact h.mem_index he
        exact ih _ _ (hk.toStale h he hin now) ((toStale_byId s' e now).trans hb) hrest
      · exact ih s' ids hk hb hrest

theorem Keyed.markStaleBeforeSequence (h : Keyed s) (q now : ℤ) :
    Kept s (s.markStaleBeforeSequence q now).1 :=
  h.staleBefore q now s.entries s [] (Kept.refl h) rfl fun _ => id

/-- What stands in the list behind `to_stale`. -/
theorem mem_toStale {x : Entry} {now : ℤ} (hx : x ∈ (s.toStale e now).entries) :
    x.live = false ∨ x ∈ s.entries ∧ x.address ≠ e.address := by
  have hput : ∀ (t : AsyncPolicyStore) (f : Entry), t.entries = s.entries → f.live = false →
      f.address = e.address → x ∈ (t.put f).entries →
      x.live = false ∨ x ∈ s.entries ∧ x.address ≠ e.address := by
    intro t f ht hf ha hm
    obtain ⟨y, hy, rfl⟩ := List.mem_map.1 hm
    split
    · exact Or.inl hf
    · rename_i hne
      rw [ha] at hne
      exact Or.inr ⟨ht ▸ hy, hne⟩
  unfold AsyncPolicyStore.toStale at hx
  dsimp only at hx
  split at hx
  · exact hput (s.releaseHeld e) { e with status := .stale, endedAt := now, result := none }
      (releaseHeld_same s e).1 rfl rfl hx
  · exact hput s { e with status := .stale, endedAt := now } rfl rfl rfl hx

/-- **The ids `mark_stale_before_sequence` returns have no waiting entry.** -/
theorem Keyed.staleBefore_ends (h : Keyed s) (q now : ℤ) : ∀ (rest : List Entry)
    (s' : AsyncPolicyStore) (ids : List String), Kept s s' → s'.byId = s.byId →
    (∀ e ∈ rest, e ∈ s.entries) →
    (∀ id ∈ ids, ∀ x ∈ s'.entries, x.requestId = id → x.live = false) →
    ∀ id ∈ (rest.foldl (AsyncPolicyStore.staleBefore q now) (s', ids)).2,
      ∀ x ∈ (rest.foldl (AsyncPolicyStore.staleBefore q now) (s', ids)).1.entries,
        x.requestId = id → x.live = false := by
  intro rest
  induction rest with
  | nil =>
    intro s' ids _ _ _ hids
    exact hids
  | cons e rest ih =>
    intro s' ids hk hb hmem hids
    have he := hmem e List.mem_cons_self
    have hrest : ∀ x ∈ rest, x ∈ s.entries := fun x hx => hmem x (List.mem_cons_of_mem e hx)
    rw [List.foldl_cons, AsyncPolicyStore.staleBefore]
    split
    · exact ih s' ids hk hb hrest hids
    · split
      · have hin : e.key ∈ s'.byId := by
          rw [hb]
          exact h.mem_index he
        refine ih _ _ (hk.toStale h he hin now) ((toStale_byId s' e now).trans hb) hrest ?_
        have hkeyed := h.kept hk
        -- The entry of the id is the one that was made stale.
        have hnew : ∀ x ∈ (s'.toStale e now).entries, x.requestId = e.requestId →
            x.live = false := by
          intro x hx hid
          rcases mem_toStale hx with hl | ⟨hx, hne⟩
          · exact hl
          · obtain ⟨y, hy, hyk⟩ : ∃ y ∈ s'.entries, y.key = e.key := by
              rw [hk.index] at hin
              exact List.mem_map.1 hin
            obtain ⟨hyid, hya⟩ := Prod.mk.inj hyk
            rw [hkeyed.eq_of_requestId hx hy (hid.trans hyid.symm), hya] at hne
            exact absurd rfl hne
        have hold : ∀ id ∈ ids, ∀ x ∈ (s'.toStale e now).entries, x.requestId = id →
            x.live = false := by
          intro id hid x hx hxid
          rcases mem_toStale hx with hl | ⟨hx, -⟩
          · exact hl
          · exact hids id hid x hx hxid
        intro id hid x hx hxid
        dsimp only at hid
        split at hid
        · rcases List.mem_append.1 hid with hid | hid
          · exact hold id hid x hx hxid
          · rw [List.mem_singleton] at hid
            exact hnew x hx (hxid.trans hid)
        · exact hold id hid x hx hxid
      · exact ih s' ids hk hb hrest hids

theorem Keyed.takeCompletedResult (h : Keyed s) (requestId : String) :
    Kept s (s.takeCompletedResult requestId).1 := by
  unfold AsyncPolicyStore.takeCompletedResult
  split
  · exact Kept.refl h
  · rename_i e hf
    split
    · exact Kept.refl h
    · split
      · exact Kept.refl h
      · exact (h.erase (h.find_iff.1 hf).1).congr rfl rfl rfl

theorem Keyed.evict (h : Keyed s) (he : e ∈ s.entries) : Kept s (s.evict e) := by
  have hrel := h.releaseHeld e
  have he' : e ∈ (s.releaseHeld e).entries := by
    rw [(releaseHeld_same s e).1]
    exact he
  exact (hrel.trans ((h.kept hrel).erase he')).congr rfl rfl rfl

theorem mem_evict {x : Entry} :
    x ∈ (s.evict e).entries ↔ x ∈ s.entries ∧ x.address ≠ e.address := by
  have hm : x ∈ ((s.releaseHeld e).erase e).entries ↔
      x ∈ (s.releaseHeld e).entries ∧ x.address ≠ e.address := mem_erase
  rw [(releaseHeld_same s e).1] at hm
  exact hm

/-- The first loop of `enforce_bounds`, over entries of other addresses. -/
theorem kept_evictAged (now : ℤ) : ∀ (rest : List Entry) (s : AsyncPolicyStore), Keyed s →
    (rest.map Entry.address).Nodup → (∀ e ∈ rest, e ∈ s.entries) →
    Kept s (rest.foldl (AsyncPolicyStore.evictIfAged now) s) := by
  intro rest
  induction rest with
  | nil =>
    intro s h _ _
    exact Kept.refl h
  | cons e rest ih =>
    intro s h hn hmem
    have he := hmem e List.mem_cons_self
    have hrest : ∀ x ∈ rest, x ∈ s.entries := fun x hx => hmem x (List.mem_cons_of_mem e hx)
    rw [List.map_cons, List.nodup_cons] at hn
    rw [List.foldl_cons, AsyncPolicyStore.evictIfAged]
    split
    · have hk : Kept s { s.evict e with aged := s.aged ++ [(e, now)] } :=
        (h.evict he).congr rfl rfl rfl
      refine hk.trans (ih _ (h.kept hk) hn.2 fun x hx => mem_evict.2 ⟨hrest x hx, fun ha => ?_⟩)
      exact hn.1 (ha ▸ List.mem_map_of_mem hx)
    · exact ih s h hn.2 hrest

theorem Keyed.evictOldest : ∀ (n : ℕ) {s : AsyncPolicyStore}, Keyed s → Kept s (s.evictOldest n) := by
  intro n
  induction n with
  | zero =>
    intro s h
    exact Kept.refl h
  | succ n ih =>
    intro s h
    unfold AsyncPolicyStore.evictOldest
    split
    · split
      · rename_i e hf
        have hk := h.evict (List.mem_of_find?_eq_some hf)
        exact hk.trans (ih (h.kept hk))
      · exact Kept.refl h
    · exact Kept.refl h

theorem Keyed.enforceBounds (h : Keyed s) (now : ℤ) : Kept s (s.enforceBounds now) := by
  have hn : (s.entries.map Entry.address).Nodup := by
    have := h.addresses
    rwa [h.index, List.map_map] at this
  have hk := kept_evictAged now s.entries s h hn fun _ => id
  exact hk.trans (Keyed.evictOldest _ (h.kept hk))

/-- The loop of `cancel_all`. -/
theorem Keyed.cancelEach (now : ℤ) : ∀ (ids : List String) {s : AsyncPolicyStore}, Keyed s →
    Kept s (ids.foldl (fun s requestId => (s.cancel requestId now).1) s) ∧
      ∀ id ∈ ids, ∀ x ∈ (ids.foldl (fun s requestId => (s.cancel requestId now).1) s).entries,
        x.requestId = id → x.live = false := by
  intro ids
  induction ids with
  | nil =>
    intro s h
    exact ⟨Kept.refl h, fun id hid => by cases hid⟩
  | cons id ids ih =>
    intro s h
    have hk := h.cancel id now
    obtain ⟨hrest, hends⟩ := ih (h.kept hk)
    refine ⟨hk.trans hrest, fun id' hid' x hx hxid => ?_⟩
    rcases List.mem_cons.1 hid' with rfl | hid'
    · obtain ⟨y, hy, hl⟩ := hrest.entries x hx
      obtain ⟨hyid, -⟩ := Prod.mk.inj hl.key
      have hdead := h.cancel_ends id' now hy (hyid.symm.trans hxid)
      by_contra hlive
      rw [Bool.not_eq_false] at hlive
      rw [hl.live hlive] at hdead
      cases hdead
    · exact hends id' hid' x hx hxid

theorem Keyed.cancelAll (h : Keyed s) (now : ℤ) : Kept s (s.cancelAll now) :=
  (Keyed.cancelEach now _ h).1

/-- **Behind `cancel_all` no entry waits.** -/
theorem Keyed.cancelAll_ends (h : Keyed s) (now : ℤ) {x : Entry}
    (hx : x ∈ (s.cancelAll now).entries) : x.live = false := by
  by_contra hlive
  rw [Bool.not_eq_false] at hlive
  obtain ⟨e, he, hl⟩ := (h.cancelAll now).entries x hx
  have helive := hl.live hlive
  obtain ⟨hid, -⟩ := Prod.mk.inj hl.key
  have htarget : x.requestId ∈ (s.entries.filter fun e =>
      e.status = .pending || e.status = .inFlight || e.status = .completed).map
      Entry.requestId := by
    rw [hid]
    refine List.mem_map_of_mem (List.mem_filter.2 ⟨he, ?_⟩)
    unfold Entry.live at helive
    rw [helive, Bool.true_or]
  have hdead := (Keyed.cancelEach now _ h).2 _ htarget x hx rfl
  rw [hlive] at hdead
  cases hdead

/-! ## Adding and publishing -/

/-- **`add_pending` adds one entry or does nothing.** -/
theorem Keyed.addPending (h : Keyed s) (request : InferRequest) (now : ℤ) :
    (∃ error, s.addPending request now = (s, .error error)) ∨
      ∃ t e, s.addPending request now = (t, .ok ()) ∧ Keyed t ∧ t.entries = s.entries ++ [e] ∧
        t.added = s.added + 1 ∧ e.key = (request.requestId, s.added) ∧ e.result = none ∧
        e.error = none := by
  unfold AsyncPolicyStore.addPending
  split
  · exact Or.inl ⟨_, rfl⟩
  · split
    · exact Or.inl ⟨_, rfl⟩
    · rename_i hid
      refine Or.inr ⟨_, _, rfl, ⟨?_, ?_, ?_, ?_⟩, rfl, rfl, rfl, rfl, rfl⟩
      · simp [h.index, Entry.key]
      · have hnew : request.requestId ∉ s.byId.map Prod.fst := by
          intro hm
          obtain ⟨p, hp, hpe⟩ := List.mem_map.1 hm
          exact hid (List.any_eq_true.2 ⟨p, hp, decide_eq_true hpe⟩)
        rw [List.map_append]
        exact List.nodup_append.2 ⟨h.ids, by simp, by
          rintro a ha b hb rfl
          rw [List.map_cons, List.map_nil, List.mem_singleton] at hb
          exact hnew (by rwa [hb] at ha)⟩
      · rw [List.map_append]
        refine List.nodup_append.2 ⟨h.addresses, by simp, ?_⟩
        rintro a ha b hb rfl
        obtain ⟨p, hp, rfl⟩ := List.mem_map.1 ha
        have hlt := h.below p hp
        rw [List.map_cons, List.map_nil, List.mem_singleton] at hb
        omega
      · intro p hp
        rcases List.mem_append.1 hp with hp | hp
        · have := h.below p hp
          show p.2 < s.added + 1
          omega
        · rw [List.mem_singleton] at hp
          subst hp
          exact Nat.lt_succ_self _

/-- What publishing an outcome under an id does: it ends the entry of the
id, which then holds it, or stores nothing. -/
structure Ends (s s' : AsyncPolicyStore) (e e' : Entry) : Prop where
  mem : e ∈ s.entries
  key : e'.key = e.key
  live : e'.live = false
  entries : s'.entries = (s.put e').entries
  byId : s'.byId = s.byId
  added : s'.added = s.added

theorem Keyed.ends (h : Keyed s) (he : Ends s s' e e') : Keyed s' := by
  refine ⟨?_, ?_, ?_, ?_⟩
  · rw [he.byId, he.entries, h.map_put he.mem he.key]
    exact h.index
  · rw [he.byId]
    exact h.ids
  · rw [he.byId]
    exact h.addresses
  · rw [he.byId, he.added]
    exact h.below

theorem Keyed.mem_ends (h : Keyed s) (he : Ends s s' e e') {x : Entry} :
    x ∈ s'.entries ↔ x = e' ∨ x ∈ s.entries ∧ x ≠ e := by
  rw [he.entries]
  exact h.mem_put he.mem he.key

/-- **`publish_result` ends the entry of its id or stores nothing.** -/
theorem Keyed.publishResult (h : Keyed s) (requestId : String) (result : InferResult) (now : ℤ) :
    ((s.publishResult requestId result now).2 = false ∧
        Kept s (s.publishResult requestId result now).1 ∧
        ∀ e ∈ s.entries, e.requestId = requestId → e.live = false) ∨
      ∃ e e', s.find requestId = some e ∧ (s.publishResult requestId result now).2 = true ∧
        Ends s (s.publishResult requestId result now).1 e e' ∧
        e'.result = some { result with number := s.published } ∧ e'.error = e.error := by
  have hfind : AsyncPolicyStore.find { s with published := s.published + 1 } requestId =
      s.find requestId := rfl
  unfold AsyncPolicyStore.publishResult
  dsimp only
  rw [hfind]
  split
  · rename_i hn
    refine Or.inl ⟨rfl, (Kept.refl h).congr rfl rfl rfl, fun e he hid => ?_⟩
    exact absurd hid (h.find_none.1 hn e he)
  · rename_i e hf
    obtain ⟨he, hid⟩ := h.find_iff.1 hf
    split
    · rename_i hsup
      refine Or.inl ⟨rfl, (Kept.refl h).congr rfl rfl rfl, fun x hx hxid => ?_⟩
      rw [h.eq_of_requestId hx he (hxid.trans hid.symm)]
      simp only [AsyncPolicyStore.suppressed, Bool.or_eq_true, decide_eq_true_eq] at hsup
      rcases hsup with (hs | hs) | hs <;> simp [Entry.live, hs]
    · exact Or.inr ⟨e, { e with
        status := .completed, result := some { result with number := s.published },
        completedAt := now, endedAt := now }, hf, rfl, ⟨he, rfl, rfl, rfl, rfl, rfl⟩, rfl, rfl⟩

/-- **`publish_failure` ends the entry of its id or stores nothing.** -/
theorem Keyed.publishFailure (h : Keyed s) (requestId : String) (error : Error) (now : ℤ) :
    ((s.publishFailure requestId error now).2 = false ∧
        Kept s (s.publishFailure requestId error now).1 ∧
        ∀ e ∈ s.entries, e.requestId = requestId → e.live = false) ∨
      ∃ e e', s.find requestId = some e ∧ (s.publishFailure requestId error now).2 = true ∧
        Ends s (s.publishFailure requestId error now).1 e e' ∧
        e'.result = e.result ∧ e'.error = some error := by
  unfold AsyncPolicyStore.publishFailure
  split
  · rename_i hn
    refine Or.inl ⟨rfl, Kept.refl h, fun e he hid => ?_⟩
    exact absurd hid (h.find_none.1 hn e he)
  · rename_i e hf
    obtain ⟨he, hid⟩ := h.find_iff.1 hf
    split
    · rename_i hsup
      refine Or.inl ⟨rfl, Kept.refl h, fun x hx hxid => ?_⟩
      rw [h.eq_of_requestId hx he (hxid.trans hid.symm)]
      simp only [AsyncPolicyStore.suppressed, Bool.or_eq_true, decide_eq_true_eq] at hsup
      rcases hsup with (hs | hs) | hs <;> simp [Entry.live, hs]
    · exact Or.inr ⟨e, { e with
        status := .failed, error := some error, completedAt := now, endedAt := now },
        hf, rfl, ⟨he, rfl, rfl, rfl, rfl, rfl⟩, rfl, rfl⟩

theorem keyed_new (config : AsyncPolicyConfig) : Keyed { config := config } :=
  ⟨rfl, List.nodup_nil, List.nodup_nil, fun p hp => by cases hp⟩

end AsyncPolicy

end Tensorplate
