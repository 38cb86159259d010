import Tensorplate.Sdk.Opening

/-!
# Every step of an open

The steps that the open sees keep its invariant: what settles a session,
what reads its call, and what `_begin` and `open` themselves do. A session
that has ended stays ended, with the failure it ended with.
-/

namespace Tensorplate

namespace Sdk

open Lib

variable {w w' : World}

/-- A session that has ended stays so. -/
def StaysEnded (s s' : Session) : Prop :=
  s.ended = true → s'.ended = true ∧ s'.failure = s.failure

theorem SameSession.staysEnded {s s' : Session} (h : SameSession s s') : StaysEnded s s' :=
  fun hended => ⟨h.ended.trans hended, h.failure⟩

/-- A step keeps what the open needs. -/
structure Keeps (w w' : World) : Prop where
  opens : Opens w'
  armed : Armed w'
  stays : StaysEnded w.session w'.session

theorem Unseen.keeps (h : Unseen w w') (ho : Opens w) (ha : Armed w) : Keeps w w' :=
  ⟨ho.same h.1, h.2 ha, h.1.toSameSession.staysEnded⟩

/-! ## The end of the session -/

/-- The tasks need no less to write. -/
theorem Armed.of_session (h : Armed w) {s : Session} (hready : w.session.ready.isSome → s.ready.isSome)
    (hcancelling : w.session.cancelling = true → s.cancelling = true) : Armed (w.withSession s) := by
  refine ⟨fun hp => hready (h.pinger hp), fun n hn => ?_⟩
  rcases h.tasks n hn with hr | hc
  · exact .inl (hready hr)
  · exact .inr (hcancelling hc)

/-- The steps of `_begin` that would settle the session again find it
abandoned. -/
def Settles (w : World) (s : Session) : Prop :=
  w.begins = .fresh ∨ w.begins = .follow → w.beginCancelled = false → s.cancelling = true

theorem abandoned_settle {s : Session} {failure : Option SpeechError} (h : s.cancelling = true) :
    Abandoned (s.settle failure) := by
  refine ⟨rfl, h, ?_⟩
  unfold Session.settle
  rw [h]
  rfl

/-- A session without a reader is settled. -/
theorem Opens.settle (h : Opens w) {failure : Option SpeechError}
    (hreader : w.reader ≠ .reading ∧ w.reader ≠ .concluding) (hsettles : Settles w w.session) :
    Opens (w.withSession (w.session.settle failure)) where
  calls := h.calls
  number := h.number
  unopened hcall := by
    obtain ⟨h₁, h₂, h₃, -, h₅, -⟩ := h.unopened hcall
    exact ⟨h₁, h₂, h₃, rfl, h₅, fun _ => rfl⟩
  reading hr := by
    rcases hr with hr | hr
    · exact absurd hr hreader.1
    · exact absurd hr hreader.2
  lost hlost := absurd hlost (by simp [World.withSession, Session.settle])
  opening := h.opening
  fresh hbegins := ⟨(h.fresh hbegins).1,
    fun hb _ => abandoned_settle (hsettles (.inl hbegins) hb)⟩
  follow hbegins := ⟨(h.follow hbegins).1, (h.follow hbegins).2.1,
    fun hb => .inr (abandoned_settle (hsettles (.inr hbegins) hb))⟩
  waiting := h.waiting
  returned := h.returned
  ready := h.ready
  writeFailed := h.writeFailed
  cancelled := h.cancelled
  aborted := h.aborted
  lawful := h.lawful
  exited _ := .inr rfl
  unfailed hended := absurd hended (by simp [World.withSession, Session.settle])
  aborting := h.aborting

/-- An entry of the log that is no call, and of which the invariant asks
nothing, or what holds. -/
theorem Opens.note (h : Opens w) {x : Happened} (hcall : ∀ n, x ≠ .connected n)
    (hcancelled : x = .cancelled ∨ x = .shut → w.session.cancelling = true)
    (haborted : x = .aborted → w.session.abortError.isSome) :
    Opens (w.withSession (w.session.note x)) := by
  have hcalls : callsIn [x] = [] := by
    cases x with
    | connected n => exact absurd rfl (hcall n)
    | _ => rfl
  have hmem : ∀ {y : Happened}, y ∈ w.session.log → y ∈ (w.session.note x).log :=
    fun hy => List.mem_append_left _ hy
  refine { h with calls := ?_, lost := ?_, ready := ?_, writeFailed := ?_, cancelled := ?_,
                  aborted := ?_, lawful := ?_ }
  · show callsIn (w.session.log ++ [x]) = _
    rw [callsIn_append, hcalls, List.append_nil]
    exact h.calls
  · intro hlost
    obtain ⟨h₁, h₂, h₃, h₄, h₅, h₆, h₇, h₈, h₉⟩ := h.lost hlost
    exact ⟨h₁, h₂, h₃, h₄, h₅, h₆, h₇, h₈, h₉.grow rfl rfl rfl⟩
  · intro hready
    exact ⟨(h.ready hready).1, hmem (h.ready hready).2⟩
  · intro hfailed
    rcases h.writeFailed hfailed with hc | hr | ⟨n, hn, hw⟩
    · exact .inl hc
    · exact .inr (.inl hr)
    · exact .inr (.inr ⟨n, hn, hmem hw⟩)
  · show Happened.cancelled ∈ w.session.log ++ [x] ∨ Happened.shut ∈ w.session.log ++ [x] → _
    rw [List.mem_append, List.mem_append, List.mem_singleton, List.mem_singleton]
    rintro ((hin | hx) | (hin | hx))
    · exact h.cancelled (.inl hin)
    · exact hcancelled (.inl hx.symm)
    · exact h.cancelled (.inr hin)
    · exact hcancelled (.inr hx.symm)
  · show Happened.aborted ∈ w.session.log ++ [x] → _
    rw [List.mem_append, List.mem_singleton]
    rintro (hin | hx)
    · exact h.aborted hin
    · exact haborted hx.symm
  · refine lawful_append_singleton.2 ⟨h.lawful, ?_⟩
    cases x with
    | connected n => exact absurd rfl (hcall n)
    | _ => trivial

/-- The session is marked as cancelled or aborted, under an entry of the log. -/
structure Marks (s s' : Session) (c : Bool) (error : Option SpeechError) (x : Happened) : Prop where
  eq : s' = { s with cancelling := c, abortError := error }.note x
  cancelling : s.cancelling = true → c = true
  abortError : s.abortError.isSome → error.isSome
  call : ∀ n, x ≠ .connected n
  cancelled : x = .cancelled ∨ x = .shut → c = true
  aborted : x = .aborted → error.isSome

section Marks

variable {s' : Session} {c : Bool} {error : Option SpeechError} {x : Happened}

theorem Marks.mem (hm : Marks w.session s' c error x) {y : Happened} (hy : y ∈ w.session.log) :
    y ∈ s'.log := by
  rw [hm.eq]
  exact List.mem_append_left _ hy

theorem Marks.calls (hm : Marks w.session s' c error x) (h : Opens w) :
    callsIn s'.log = List.range' 1 (s'.call.getD 0) := by
  have hcalls : callsIn [x] = [] := by
    have hcall := hm.call
    cases x with
    | connected n => exact absurd rfl (hcall n)
    | _ => rfl
  rw [hm.eq]
  show callsIn (w.session.log ++ [x]) = _
  rw [callsIn_append, hcalls, List.append_nil]
  exact h.calls

theorem Marks.ready (hm : Marks w.session s' c error x) (h : Opens w) (hready : s'.ready.isSome) :
    0 < s'.received ∧ Happened.readReady (s'.call.getD 0) ∈ s'.log := by
  have hmem := fun {y} => hm.mem (y := y)
  obtain rfl := hm.eq
  exact ⟨(h.ready hready).1, hmem (h.ready hready).2⟩

theorem Marks.writeFailed (hm : Marks w.session s' c error x) (h : Opens w)
    (hfailed : s'.writeFailed = true) : s'.cancelling = true ∨ s'.ready.isSome ∨
      ∃ n, s'.call = some n ∧ Happened.openWriteFailed n ∈ s'.log := by
  have hmem := fun {y} => hm.mem (y := y)
  have hcancelling := hm.cancelling
  obtain rfl := hm.eq
  rcases h.writeFailed hfailed with hc | hr | ⟨n, hn, hw⟩
  · exact .inl (hcancelling hc)
  · exact .inr (.inl hr)
  · exact .inr (.inr ⟨n, hn, hmem hw⟩)

theorem Marks.inCancelled (hm : Marks w.session s' c error x) (h : Opens w) :
    Happened.cancelled ∈ s'.log ∨ Happened.shut ∈ s'.log → s'.cancelling = true := by
  have hcancelling := hm.cancelling
  have hcancelled := hm.cancelled
  obtain rfl := hm.eq
  show Happened.cancelled ∈ w.session.log ++ [x] ∨ Happened.shut ∈ w.session.log ++ [x] → c = true
  rw [List.mem_append, List.mem_append, List.mem_singleton, List.mem_singleton]
  rintro ((hin | hx) | (hin | hx))
  · exact hcancelling (h.cancelled (.inl hin))
  · exact hcancelled (.inl hx.symm)
  · exact hcancelling (h.cancelled (.inr hin))
  · exact hcancelled (.inr hx.symm)

theorem Marks.inAborted (hm : Marks w.session s' c error x) (h : Opens w) :
    Happened.aborted ∈ s'.log → s'.abortError.isSome := by
  have habortError := hm.abortError
  have haborted := hm.aborted
  obtain rfl := hm.eq
  show Happened.aborted ∈ w.session.log ++ [x] → error.isSome
  rw [List.mem_append, List.mem_singleton]
  rintro (hin | hx)
  · exact habortError (h.aborted hin)
  · exact haborted hx.symm

theorem Marks.lawful (hm : Marks w.session s' c error x) (h : Opens w) : Lawful OkCall s'.log := by
  have hcall := hm.call
  obtain rfl := hm.eq
  refine lawful_append_singleton.2 ⟨h.lawful, ?_⟩
  cases x with
  | connected n => exact absurd rfl (hcall n)
  | _ => trivial

/-- Where a call is in use and none is kept aside, the session is only marked. -/
theorem Opens.mark (h : Opens w) (hm : Marks w.session s' c error x)
    (hcall : w.session.call.isSome) (hlost : w.session.lost = none) :
    Opens (w.withSession s') := by
  have hsome : ¬w.session.call = none := by
    intro hnone
    rw [hnone] at hcall
    exact absurd hcall (by simp)
  have hcalls := hm.calls h
  have hready := hm.ready h
  have hfailed := hm.writeFailed h
  have hcancelled := hm.inCancelled h
  have haborted := hm.inAborted h
  have hlawful := hm.lawful h
  have habortError := hm.abortError
  have hcancelling := hm.cancelling
  obtain rfl := hm.eq
  exact {
    calls := hcalls
    number := h.number
    unopened := fun hnone => absurd hnone hsome
    reading := h.reading
    lost := fun hl => absurd (show w.session.lost.isSome from hl) (by simp [hlost])
    opening := h.opening
    fresh := fun hb => absurd (h.fresh hb).1 hsome
    follow := by
      intro hb
      obtain ⟨h₁, h₂, h₃⟩ := h.follow hb
      refine ⟨h₁, h₂, fun hcan => ?_⟩
      rcases h₃ hcan with hl | ⟨he, hc, hf⟩
      · exact absurd hl (by simp [hlost])
      · exact .inr ⟨he, hcancelling hc, hf⟩
    waiting := h.waiting
    returned := h.returned
    ready := hready
    writeFailed := hfailed
    cancelled := hcancelled
    aborted := haborted
    lawful := hlawful
    exited := h.exited
    unfailed := h.unfailed
    aborting := fun ho => habortError (h.aborting ho) }

/-- Elsewhere it is settled as well. -/
theorem Opens.markSettle (h : Opens w) (hm : Marks w.session s' c error x)
    {failure : Option SpeechError} (hreader : w.reader ≠ .reading ∧ w.reader ≠ .concluding)
    (hsettles : Settles w s') : Opens (w.withSession (s'.settle failure)) := by
  have hcalls := hm.calls h
  have hready := hm.ready h
  have hfailed := hm.writeFailed h
  have hcancelled := hm.inCancelled h
  have haborted := hm.inAborted h
  have hlawful := hm.lawful h
  have habortError := hm.abortError
  obtain rfl := hm.eq
  exact {
    calls := hcalls
    number := h.number
    unopened := by
      intro hcall
      obtain ⟨h₁, h₂, h₃, -, h₅, -⟩ := h.unopened hcall
      exact ⟨h₁, h₂, h₃, rfl, h₅, fun _ => rfl⟩
    reading := by
      rintro (hr | hr)
      · exact absurd hr hreader.1
      · exact absurd hr hreader.2
    lost := fun hlost => absurd hlost (by simp [World.withSession, Session.settle])
    opening := h.opening
    fresh := fun hb => ⟨(h.fresh hb).1, fun hc _ => abandoned_settle (hsettles (.inl hb) hc)⟩
    follow := fun hb => ⟨(h.follow hb).1, (h.follow hb).2.1,
      fun hc => .inr (abandoned_settle (hsettles (.inr hb) hc))⟩
    waiting := h.waiting
    returned := h.returned
    ready := hready
    writeFailed := hfailed
    cancelled := hcancelled
    aborted := haborted
    lawful := hlawful
    exited := fun _ => .inr rfl
    unfailed := fun hended => absurd hended (by simp [World.withSession, Session.settle])
    aborting := fun ho => habortError (h.aborting ho) }

/-- A session without a call is ended at once. -/
theorem Opens.markEnd (h : Opens w) (hm : Marks w.session s' true error x)
    (hcall : w.session.call = none) : Opens (w.withSession { s' with ended := true }) := by
  have hcalls := hm.calls h
  have hready := hm.ready h
  have hfailed := hm.writeFailed h
  have hcancelled := hm.inCancelled h
  have haborted := hm.inAborted h
  have hlawful := hm.lawful h
  have habortError := hm.abortError
  obtain ⟨h₁, h₂, h₃, h₄, h₅, -⟩ := h.unopened hcall
  have hfailure : (w.session.ended = true → Abandoned w.session) → w.session.failure = none := by
    intro habandoned
    rcases hended : w.session.ended with - | -
    · exact h.unfailed hended
    · exact (habandoned hended).2.2
  obtain rfl := hm.eq
  exact {
    calls := hcalls
    number := h.number
    unopened := fun _ => ⟨h₁, h₂, h₃, h₄, h₅, fun _ => rfl⟩
    reading := fun hr => absurd (show w.reader = .reading ∨ w.reader = .concluding from hr)
      (by simp [h₂])
    lost := fun hl => absurd (show w.session.lost.isSome from hl) (by simp [h₄])
    opening := h.opening
    fresh := fun hb => ⟨hcall, fun hc _ => ⟨rfl, rfl, hfailure fun he => (h.fresh hb).2 hc he⟩⟩
    follow := fun hb => absurd (show w.begins = .follow from hb) (by rcases h₅ with h | h | h <;> simp [h])
    waiting := h.waiting
    returned := h.returned
    ready := hready
    writeFailed := hfailed
    cancelled := hcancelled
    aborted := haborted
    lawful := hlawful
    exited := fun _ => .inr rfl
    unfailed := fun hended => absurd hended (by simp [World.withSession])
    aborting := fun ho => habortError (h.aborting ho) }

end Marks

/-- A session without a call in use has no reader at work, nor has one whose
first call is kept aside. -/
theorem Opens.noReader (h : Opens w) (hcall : w.session.call = none ∨ w.session.lost.isSome) :
    w.reader ≠ .reading ∧ w.reader ≠ .concluding := by
  rcases hcall with hnone | hlost
  · have hreader := (h.unopened hnone).2.1
    rw [hreader]
    exact ⟨nofun, nofun⟩
  · obtain ⟨-, -, -, -, -, -, hreader, -⟩ := h.lost hlost
    rw [hreader]
    exact ⟨nofun, nofun⟩

theorem marks_abort (s : Session) (error : SpeechError) :
    Marks s ({ s with abortError := some (s.abortError.getD error) }.note .aborted) s.cancelling
      (some (s.abortError.getD error)) .aborted :=
  ⟨rfl, id, fun _ => rfl, nofun, nofun, fun _ => rfl⟩

theorem marks_cancel (s : Session) {x : Happened} (hx : x = .cancelled ∨ x = .shut) :
    Marks s ({ s with cancelling := true }.note x) true s.abortError x := by
  refine ⟨rfl, fun _ => rfl, id, fun n hn => ?_, fun _ => rfl, fun ha => ?_⟩
  · rcases hx with rfl | rfl
    · exact absurd hn (by simp)
    · exact absurd hn (by simp)
  · rcases hx with rfl | rfl
    · exact absurd ha (by simp)
    · exact absurd ha (by simp)

theorem abort_eq (s : Session) (error : SpeechError) :
    s.abort error =
      if s.call.isNone || s.lost.isSome then
        ({ s with abortError := some (s.abortError.getD error) }.note .aborted).settle none
      else { s with abortError := some (s.abortError.getD error) }.note .aborted := rfl

theorem abort_fields (s : Session) (error : SpeechError) :
    (s.abort error).ready = s.ready ∧ (s.abort error).cancelling = s.cancelling ∧
      (s.abort error).call = s.call ∧ (s.abort error).abortError.isSome := by
  rw [abort_eq]
  split_ifs
  · exact ⟨rfl, rfl, rfl, rfl⟩
  · exact ⟨rfl, rfl, rfl, rfl⟩

theorem Armed.abort (h : Armed w) (error : SpeechError) :
    Armed (w.withSession (w.session.abort error)) := by
  obtain ⟨hready, hcancelling, -⟩ := abort_fields w.session error
  refine h.of_session ?_ ?_
  · rw [hready]
    exact id
  · rw [hcancelling]
    exact id

/-- **`_abort`.** -/
theorem Opens.abort (h : Opens w) (error : SpeechError)
    (hsettles : w.session.call = none ∨ w.session.lost.isSome → Settles w w.session) :
    Opens (w.withSession (w.session.abort error)) := by
  have hm := marks_abort w.session error
  rw [abort_eq]
  split_ifs with hcond
  · have hor : w.session.call = none ∨ w.session.lost.isSome := by simpa using hcond
    exact h.markSettle hm (h.noReader hor) (hsettles hor)
  · rw [Bool.or_eq_true, not_or] at hcond
    exact h.mark hm (by simpa [Option.isSome_iff_ne_none] using hcond.1) (by simpa using hcond.2)

theorem staysEnded_abort (h : Opens w) (error : SpeechError)
    (hended : w.session.ended = true → w.session.call = none → Abandoned w.session) :
    StaysEnded w.session (w.session.abort error) := by
  intro he
  rw [abort_eq]
  split_ifs with hcond
  · have hnone : w.session.call = none := by
      rw [Bool.or_eq_true] at hcond
      rcases hcond with hnone | hlost
      · simpa using hnone
      · exact absurd he (by simp [(h.lost hlost).1])
    obtain ⟨-, hc, hf⟩ := hended he hnone
    refine ⟨rfl, ?_⟩
    unfold Session.settle Session.note
    rw [hf]
    simp [hc]
  · exact ⟨he, rfl⟩

theorem shut_eq (s : Session) : s.shut =
    if s.call.isNone then { ({ s with cancelling := true }.note .shut) with ended := true }
    else if s.lost.isSome then ({ s with cancelling := true }.note .shut).settle none
    else { s with cancelling := true }.note .shut := rfl

theorem shut_fields (s : Session) : s.shut.ready = s.ready ∧ s.shut.cancelling = true := by
  rw [shut_eq]
  split_ifs
  · exact ⟨rfl, rfl⟩
  · exact ⟨rfl, rfl⟩
  · exact ⟨rfl, rfl⟩

theorem Armed.shut (h : Armed w) : Armed (w.withSession w.session.shut) := by
  obtain ⟨hready, hcancelling⟩ := shut_fields w.session
  refine h.of_session ?_ fun _ => hcancelling
  rw [hready]
  exact id

/-- **`_shut`.** -/
theorem Opens.shut (h : Opens w) : Opens (w.withSession w.session.shut) := by
  have hm := marks_cancel w.session (x := .shut) (.inr rfl)
  rw [shut_eq]
  split_ifs with hcall hlost
  · exact h.markEnd hm (by simpa using hcall)
  · exact h.markSettle hm (h.noReader (.inr hlost)) fun _ _ => rfl
  · exact h.mark hm (by simpa [Option.isSome_iff_ne_none] using hcall) (by simpa using hlost)

theorem staysEnded_shut (h : Opens w) : StaysEnded w.session w.session.shut := by
  intro he
  rw [shut_eq]
  split_ifs with hcall hlost
  · exact ⟨rfl, rfl⟩
  · exact absurd he (by simp [(h.lost hlost).1])
  · exact ⟨he, rfl⟩

/-! ## The caller's tasks -/

theorem Armed.tasks_at (h : Armed w) {n : ℕ} {t : Task} (ht : t.stage.sends → Writes w.session) :
    Armed { w with tasks := Function.update w.tasks n t } := by
  refine h.moves (n := n) (SameOpen.of_session (.refl _) _ _) rfl
    (fun m hm => Function.update_of_ne hm _ _) fun hsends => ht ?_
  dsimp only at hsends
  rwa [Function.update_self] at hsends

theorem unseen_tasks {n : ℕ} {t : Task} (ht : t.stage.sends → Writes w.session) :
    Unseen w { w with tasks := Function.update w.tasks n t } :=
  ⟨SameOpen.of_session (.refl _) _ _, fun h => h.tasks_at ht⟩

theorem Unseen.trans {w₁ w₂ : World} (h₁ : Unseen w w₁) (h₂ : Unseen w₁ w₂) : Unseen w w₂ :=
  ⟨h₁.1.trans h₂.1, fun h => h₂.2 (h₁.2 h)⟩

theorem Unseen.keeps_trans {w₁ : World} (h₁ : Unseen w w₁) (h₂ : Keeps w₁ w') : Keeps w w' := by
  refine ⟨h₂.opens, h₂.armed, fun hended => ?_⟩
  obtain ⟨hstays, hfailure⟩ := h₂.stays (h₁.1.ended.trans hended)
  exact ⟨hstays, hfailure.trans h₁.1.failure⟩

theorem Keeps.trans_unseen {w₁ : World} (h₁ : Keeps w w₁) (h₂ : Unseen w₁ w') : Keeps w w' := by
  refine ⟨h₁.opens.same h₂.1, h₂.2 h₁.armed, fun hended => ?_⟩
  obtain ⟨hstays, hfailure⟩ := h₁.stays hended
  exact ⟨h₂.1.ended.trans hstays, h₂.1.failure.trans hfailure⟩

/-- A failed write is marked. -/
theorem Opens.writeFails (h : Opens w) (hw : Writes w.session) :
    Opens (w.withSession { w.session with writeFailed := true }) := by
  refine { h with writeFailed := fun _ => ?_ }
  rcases hw with hr | hc
  · exact .inr (.inl hr)
  · exact .inl hc

theorem keeps_writeFails (h : Opens w) (ha : Armed w) (hw : Writes w.session) :
    Keeps w (w.withSession { w.session with writeFailed := true }) :=
  ⟨h.writeFails hw, ha.of_session id id, fun hended => ⟨hended, rfl⟩⟩

theorem keeps_written {n : ℕ} {ok : Bool} (h : Opens w) (ha : Armed w)
    (hstep : w.written n ok = some w') : Keeps w w' := by
  unfold World.written at hstep
  split at hstep
  · rename_i sequence hstage
    split at hstep
    · obtain rfl := Option.some.inj hstep
      exact (unseen_afterWrite w n sequence).keeps h ha
    · obtain rfl := Option.some.inj hstep
      have hwrites : Writes w.session := ha.tasks n (by rw [hstage]; rfl)
      have hfails := keeps_writeFails h ha hwrites
      exact hfails.trans_unseen ⟨SameOpen.stage _ n _,
        fun harmed => harmed.stage fun hs => absurd hs (by simp [Stage.sends])⟩
  · obtain rfl := Option.some.inj hstep
    have hs := SameSession.endWrite w.session
    exact Unseen.keeps ⟨(SameOpen.of_session hs w.tasks w.pinger).trans (SameOpen.stage _ n _),
      fun harmed => (harmed.withSession hs).stage fun hs => absurd hs (by simp [Stage.sends])⟩ h ha
  · exact absurd hstep (by simp)

theorem keeps_ping {ok : Bool} (h : Opens w) (ha : Armed w) (hstep : w.ping ok = some w') :
    Keeps w w' := by
  have hstage : ∀ stage, w.pinger ≠ .absent → Unseen w { w with pinger := stage } :=
    fun stage hp => ⟨SameOpen.of_session (.refl _) _ _, fun harmed =>
      ⟨fun _ => harmed.pinger hp, harmed.tasks⟩⟩
  have hsession : ∀ {s : Session} stage, w.pinger ≠ .absent → SameSession w.session s →
      Unseen w { w with session := s, pinger := stage } := by
    intro s stage hp hs
    refine ⟨SameOpen.of_session hs _ _, fun harmed => ⟨fun _ => ?_, fun n hn => ?_⟩⟩
    · show s.ready.isSome
      rw [hs.ready]
      exact harmed.pinger hp
    · exact (SameOpen.of_session hs w.tasks stage).writes.2 (harmed.tasks n hn)
  unfold World.ping at hstep
  split at hstep
  · rename_i hp
    split at hstep
    · obtain rfl := Option.some.inj hstep
      exact (hstage _ (by simp [hp])).keeps h ha
    · obtain rfl := Option.some.inj hstep
      exact (hstage _ (by simp [hp])).keeps h ha
  · rename_i hp
    split at hstep
    · obtain rfl := Option.some.inj hstep
      exact (hstage _ (by simp [hp])).keeps h ha
    split at hstep
    · exact absurd hstep (by simp)
    split at hstep
    · rename_i s hbegin
      obtain rfl := Option.some.inj hstep
      exact (hsession _ (by simp [hp]) (SameSession.beginWrite hbegin)).keeps h ha
    · obtain rfl := Option.some.inj hstep
      exact (hstage _ (by simp [hp])).keeps h ha
  · rename_i hp
    split at hstep
    · obtain rfl := Option.some.inj hstep
      exact (hsession _ (by simp [hp]) (SameSession.endWrite _)).keeps h ha
    · obtain rfl := Option.some.inj hstep
      have hready := ha.pinger (by simp [hp])
      have hfails := keeps_writeFails h ha (.inl hready)
      exact hfails.trans_unseen ⟨SameOpen.of_session (.refl _) _ _, fun harmed =>
        ⟨fun _ => hready, harmed.tasks⟩⟩
  · rename_i hp
    split at hstep
    · obtain rfl := Option.some.inj hstep
      exact (hsession _ (by simp [hp]) (SameSession.endWrite _)).keeps h ha
    · exact absurd hstep (by simp)
  · exact absurd hstep (by simp)

/-- **`cancel`.** -/
theorem keeps_cancelCalled (h : Opens w) (ha : Armed w) (n : ℕ) : Keeps w (w.cancelCalled n) := by
  have htasks : Unseen w
      { w with tasks := Function.update w.tasks n { work := .cancel, stage := .returned } } :=
    unseen_tasks fun hs => absurd hs (by simp [Stage.sends])
  have ho := h.same htasks.1
  have harmed := htasks.2 ha
  have hm := marks_cancel w.session (x := .cancelled) (.inl rfl)
  unfold World.cancelCalled
  dsimp only
  split
  · exact htasks.keeps h ha
  rename_i hended
  split
  · rename_i hcall
    split
    · refine ⟨ho.markSettle hm (ho.noReader (.inl (by simpa using hcall)))
        fun _ _ => rfl, harmed.of_session id fun _ => rfl, fun he => ?_⟩
      exact absurd he hended
    · exact htasks.keeps h ha
  · rename_i hcall
    have hsome : w.session.call.isSome := by simpa [Option.isSome_iff_ne_none] using hcall
    refine Keeps.trans_unseen (show Keeps w ({ w with
        tasks := Function.update w.tasks n { work := .cancel, stage := .returned } }.withSession
        (if ({ w.session with cancelling := true }.note .cancelled).lost.isSome then
          ({ w.session with cancelling := true }.note .cancelled).settle none
        else { w.session with cancelling := true }.note .cancelled)) from
      ⟨?_, ?_, fun he => ?_⟩) ?_
    · split
      · rename_i hlost
        exact ho.markSettle hm (ho.noReader (.inr hlost)) fun _ _ => rfl
      · rename_i hlost
        have hnot : ¬w.session.lost.isSome := hlost
        exact ho.mark hm hsome (by simpa using hnot)
    · refine harmed.of_session ?_ ?_
      · split
        · exact id
        · exact id
      · split
        · exact fun _ => rfl
        · exact fun _ => rfl
    · exact absurd he hended
    · refine ⟨SameOpen.stage _ n _, fun hx => hx.stage fun _ => .inr ?_⟩
      show (if _ then _ else _ : Session).cancelling = true
      split
      · rfl
      · rfl

theorem keeps_called {n : ℕ} {work : Work} (h : Opens w) (ha : Armed w)
    (hstep : w.called n work = some w') : Keeps w w' := by
  unfold World.called at hstep
  split at hstep
  · exact absurd hstep (by simp)
  split at hstep
  · obtain rfl := Option.some.inj hstep
    exact keeps_cancelCalled h ha n
  · obtain rfl := Option.some.inj hstep
    dsimp only
    split
    · -- The task is never at a stage before a write: it leaves at once.
      have hs : SameOpen w ({ w with
          tasks := Function.update w.tasks n { work := .close, stage := .lock 0 } }.leave n false) :=
        (SameOpen.of_session (.refl _) _ _).trans (SameOpen.leave _ n false)
      refine Unseen.keeps ⟨hs, fun harmed => ?_⟩ h ha
      refine harmed.moves (n := n) hs rfl (fun m hm => ?_) fun hsends => ?_
      · unfold World.leave World.stage World.withSession
        dsimp only
        rw [Function.update_of_ne hm, Function.update_of_ne hm]
      · unfold World.leave World.stage at hsends
        dsimp only at hsends
        rw [Function.update_self] at hsends
        exact absurd hsends (by simp [Stage.sends])
    · rename_i hready
      have hsome : w.session.ready.isSome := by simpa [Option.isSome_iff_ne_none] using hready
      exact (unseen_tasks fun _ => .inl hsome).keeps h ha
  · obtain rfl := Option.some.inj hstep
    exact (unseen_tasks fun hs => absurd hs (by simp [Stage.sends])).keeps h ha

theorem Opens.call_of_ready (h : Opens w) (hready : w.session.ready.isSome) :
    ¬(w.session.call = none ∨ w.session.lost.isSome) := by
  rintro (hcall | hlost)
  · rw [(h.unopened hcall).2.2.1] at hready
    exact absurd hready (by simp)
  · obtain ⟨-, -, -, -, -, -, -, hnone, -⟩ := h.lost hlost
    rw [hnone] at hready
    exact absurd hready (by simp)

theorem keeps_timedOut (h : Opens w) (ha : Armed w) (n : ℕ) : Keeps w (w.timedOut n) := by
  unfold World.timedOut
  split
  · exact Unseen.keeps ⟨SameOpen.stage _ n _,
      fun harmed => harmed.stage fun hs => absurd hs (by simp [Stage.sends])⟩ h ha
  · exact Unseen.keeps ⟨SameOpen.refl w, id⟩ h ha
  · split
    · rename_i hready
      have hnot := h.call_of_ready hready
      exact ⟨h.abort _ fun hor => absurd hor hnot, ha.abort _, staysEnded_abort h _ fun _ hnone =>
        absurd (.inl hnone) hnot⟩
    · exact Unseen.keeps ⟨SameOpen.refl w, id⟩ h ha

theorem keeps_left {n : ℕ} {timeout : Bool} (h : Opens w) (ha : Armed w)
    (hstep : w.left n timeout = some w') : Keeps w w' := by
  have hleave := unseen_leaveTask w n
  have htimed := hleave.keeps_trans
    (keeps_timedOut (h.same hleave.1) (hleave.2 ha) n)
  unfold World.left at hstep
  split at hstep
  · exact absurd hstep (by simp)
  split at hstep
  · split at hstep
    · obtain rfl := Option.some.inj hstep
      exact keeps_timedOut h ha n
    · obtain rfl := Option.some.inj hstep
      exact htimed
    · obtain rfl := Option.some.inj hstep
      exact htimed
    · exact absurd hstep (by simp)
  · obtain rfl := Option.some.inj hstep
    exact hleave.keeps h ha

end Sdk

end Tensorplate
