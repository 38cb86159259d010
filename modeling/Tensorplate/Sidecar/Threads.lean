import Tensorplate.Lib.Runs
import Tensorplate.Sidecar.Calls

/-!
# The threads of the sidecar

Each thread has the job that the table says it has, and while a closing
request waits no job does. Every step of a thread is a sequence of changes
of the table, and none of them is refused.
-/

namespace Tensorplate

namespace Sidecar

open Lib

variable {σ : Type} {t t' : Table σ} {w w' : World σ} {r q : Ref}

/-! ## What a message leaves alone -/

/-- The fields that no message touches; without a backend no job joins. -/
structure Unmoved (t t' : Table σ) : Prop where
  running : t'.running = t.running
  vadRunning : t'.vadRunning = t.vadRunning
  backend : t'.backend = t.backend
  closing : t'.closing = t.closing
  frames : t'.frames = t.frames
  next : t.next ≤ t'.next
  waiting : t.backend = none → ∀ q ∈ t'.waiting, q ∈ t.waiting

theorem Unmoved.refl (t : Table σ) : Unmoved t t :=
  ⟨rfl, rfl, rfl, rfl, rfl, le_rfl, fun _ _ hq => hq⟩

theorem Unmoved.trans {t'' : Table σ} (h : Unmoved t t') (h' : Unmoved t' t'') : Unmoved t t'' where
  running := h'.running.trans h.running
  vadRunning := h'.vadRunning.trans h.vadRunning
  backend := h'.backend.trans h.backend
  closing := h'.closing.trans h.closing
  frames := h'.frames.trans h.frames
  next := h.next.trans h'.next
  waiting hb q hq := h.waiting hb q (h'.waiting (h.backend.trans hb) q hq)

theorem frames_congr (h : t'.lane = t.lane) : t'.frames = t.frames := by
  unfold Table.frames
  rw [h]

theorem waiting_congr (hlane : t'.lane = t.lane) (hvadLane : t'.vadLane = t.vadLane) :
    t'.waiting = t.waiting := by
  unfold Table.waiting
  rw [refs_congr hlane, hvadLane]

theorem Removed.waiting (h : Removed t t' r) (q : Ref) (hq : q ∈ t'.waiting) : q ∈ t.waiting := by
  unfold Table.waiting at hq ⊢
  rw [h.refs, h.vadLane] at hq
  rcases List.mem_append.1 hq with hq | hq
  · exact List.mem_append_left _ (List.mem_of_mem_erase hq)
  · exact List.mem_append_right _ (List.mem_of_mem_erase hq)

theorem Removed.unmoved (h : Removed t t' r) : Unmoved t t' :=
  ⟨h.running, h.vadRunning, h.backend, h.closing, h.frames, h.next.ge, fun _ => h.waiting⟩

theorem Acknowledged.unmoved (h : Acknowledged t t' r) : Unmoved t t' :=
  ⟨h.running, h.vadRunning, h.backend, h.closing, frames_congr h.lane, h.next.ge,
    fun _ q hq => by rwa [waiting_congr h.lane h.vadLane] at hq⟩

theorem Reaction.unmoved (h : Sound t []) (hreaction : Reaction t t') : Unmoved t t' := by
  cases hreaction with
  | note he => exact ⟨rfl, rfl, rfl, rfl, rfl, le_rfl, fun _ _ hq => hq⟩
  | @unread header answers hsubmit hanswers =>
    obtain ⟨held, heq⟩ := resetUnrun_frame (t.noted header answers) header
    rw [heq]
    exact ⟨rfl, rfl, rfl, rfl, rfl, Nat.le_succ _, fun _ _ hq => hq⟩
  | @refused _ header job error hmade hended =>
    have hmake : Unmoved t (t.made header job) :=
      ⟨rfl, rfl, rfl, rfl, rfl, Nat.le_succ _, fun _ _ hq => hq⟩
    exact hmake.trans (hended.removed (h.made header job) (hmade.ids h)).unmoved
  | @accepted _ header job hadmitted haccepted =>
    refine ⟨haccepted.running, haccepted.vadRunning, haccepted.backend, haccepted.closing, ?_,
      (Nat.le_succ _).trans haccepted.next.ge, fun hb => ?_⟩
    · unfold Table.frames
      rw [haccepted.lane]
      split_ifs
      · rfl
      · rw [List.filterMap_append]
        exact List.append_nil _
    · have henabled := hadmitted.enabled
      rw [hb] at henabled
      cases henabled
  | acknowledged hr hc hack => exact hack.unmoved
  | @cancelled t₁ _ r error hr hack hended =>
    have hsound₁ := hack.sound h
    refine hack.unmoved.trans (hended.removed hsound₁ fun q hq hid => ?_).unmoved
    exact hsound₁.ids q hq r (by rw [hack.jobs]; exact h.job_of_waiting hr) hid
  | @failed _ r error hr hended =>
    exact (hended.removed h fun q hq hid => h.ids q hq r (h.job_of_waiting hr) hid).unmoved
  | pended hs hlive => exact ⟨rfl, rfl, rfl, rfl, rfl, le_rfl, fun _ _ hq => hq⟩
  | released hs hlive => exact ⟨rfl, rfl, rfl, rfl, rfl, le_rfl, fun _ _ hq => hq⟩

theorem Sound.unmoved (h : Sound t []) (hcalm : Calm t) (hreactions : Reactions t t') :
    Unmoved t t' := by
  induction hreactions with
  | refl => exact Unmoved.refl t
  | tail hbefore hreaction ih =>
    exact ih.trans (hreaction.unmoved (h.reactions hcalm hbefore).1)

/-! ## The threads and the table -/

/-- While a closing request waits, job messages are disabled and no job
waits. -/
def Shut (t : Table σ) : Prop := t.closing ≠ [] → t.backend = none ∧ t.waiting = []

theorem Shut.unmoved (h : Shut t) (hunmoved : Unmoved t t') : Shut t' := by
  intro hclosing
  rw [hunmoved.closing] at hclosing
  obtain ⟨hbackend, hwaiting⟩ := h hclosing
  refine ⟨hunmoved.backend.trans hbackend, List.eq_nil_iff_forall_not_mem.2 fun q hq => ?_⟩
  have hold := hunmoved.waiting hbackend q hq
  rw [hwaiting] at hold
  cases hold

/-- **The threads have the jobs that the table says.** -/
structure Placed (w : World σ) : Prop where
  sound : Sound w.table []
  calm : Calm w.table
  shut : Shut w.table
  serving : w.table.running = (w.runOf false).map Prod.fst
  vad : w.table.vadRunning = (w.runOf true).map Prod.fst

theorem placed_first : Placed ({} : World σ) := by
  refine ⟨⟨List.nodup_nil, List.nodup_nil, fun q => Iff.rfl, ?_, ?_, ?_, ?_, ?_, ?_⟩, ?_, ?_, rfl, rfl⟩
  · intro q hq
    cases hq
  · intro q hq
    cases hq
  · intro q hq
    cases hq
  · intro q hq
    cases hq
  · intro q hq
    cases hq
  · intro s hs
    cases hs
  · intro q hq
    cases hq
  · intro hclosing
    exact absurd rfl hclosing

/-- The job of a run is on its thread. -/
theorem Placed.runs (h : Placed w) {vad : Bool} {stage : Stage σ}
    (hrun : w.runOf vad = some (r, stage)) : w.table.Runs r := by
  cases vad with
  | false =>
    left
    rw [h.serving, hrun]
    rfl
  | true =>
    right
    rw [h.vad, hrun]
    rfl

/-- The lane of the job is that of the thread. -/
theorem Placed.vad_of_run (h : Placed w) {vad : Bool} {stage : Stage σ}
    (hrun : w.runOf vad = some (r, stage)) : (w.table.objects r).vad = vad := by
  cases vad with
  | false =>
    apply h.sound.main r
    apply List.mem_append_right
    rw [h.serving, hrun]
    simp
  | true =>
    apply h.sound.vad r
    apply List.mem_append_right
    rw [h.vad, hrun]
    simp

theorem runOf_table (w : World σ) (t : Table σ) (vad : Bool) :
    ({ w with table := t } : World σ).runOf vad = w.runOf vad := rfl

@[simp] theorem setRun_table (w : World σ) (vad : Bool) (r : Ref) (stage : Stage σ) :
    (w.setRun vad r stage).table = w.table := by
  unfold World.setRun
  split_ifs
  · rfl
  · rfl

@[simp] theorem endRun_table (w : World σ) (vad : Bool) : (w.endRun vad).table = w.table := by
  unfold World.endRun
  split_ifs
  · rfl
  · rfl

/-- A stage of a run replaces that of the same thread. -/
theorem runOf_setRun (w : World σ) (vad vad' : Bool) (r : Ref) (stage : Stage σ) :
    (w.setRun vad r stage).runOf vad' =
      if vad' = vad then some (r, stage) else w.runOf vad' := by
  cases vad with
  | false => cases vad' with
    | false => rfl
    | true => rfl
  | true => cases vad' with
    | false => rfl
    | true => rfl

theorem runOf_endRun (w : World σ) (vad vad' : Bool) :
    (w.endRun vad).runOf vad' = if vad' = vad then none else w.runOf vad' := by
  cases vad with
  | false => cases vad' with
    | false => rfl
    | true => rfl
  | true => cases vad' with
    | false => rfl
    | true => rfl

/-- A sequence of changes. -/
abbrev Changes (t t' : Table σ) : Prop := Relation.ReflTransGen Change t t'

theorem Changes.of_reactions (h : Reactions t t') : Changes t t' :=
  Relation.ReflTransGen.mono (fun _ _ => Change.reacts) _ _ h

/-! ## The steps -/

/-- What `take` takes. -/
theorem take_cases {work : Work} (h : t.take = some (t', work)) :
    (∃ r rest, t.lane = .job r :: rest ∧ work = .job r ∧
      t' = { t with lane := rest, running := some r }) ∨
    (∃ f rest, t.lane = .frame f :: rest ∧ work = .frame f ∧ f.id ∉ t.closing ∧
      t' = { t with lane := rest }) ∨
    ∃ f rest, t.lane = .frame f :: rest ∧ work = .frame f ∧ f.id ∈ t.closing ∧
      t.vadRunning = none ∧
      t' = { t with
        lane := rest
        closing := t.closing.filter fun id => id ≠ f.id
        vadSessions := fun _ => none
        log := t.log ++ [.closed f.id] } := by
  unfold Table.take at h
  split at h
  · cases h
  rename_i hunder
  split at h
  · cases h
  · rename_i r rest hlane
    left
    obtain ⟨rfl, rfl⟩ := Prod.mk.inj (Option.some.inj h)
    exact ⟨r, rest, hlane, rfl, rfl⟩
  · rename_i f rest hlane
    right
    dsimp only at h
    split at h
    · rename_i hclosing
      right
      obtain ⟨rfl, rfl⟩ := Prod.mk.inj (Option.some.inj h)
      have hmem : f.id ∈ t.closing := by simpa using hclosing
      refine ⟨f, rest, hlane, rfl, hmem, ?_, rfl⟩
      unfold Table.closesUnderVad at hunder
      rw [hlane] at hunder
      by_contra hvad
      have hsome := Option.isSome_iff_ne_none.2 hvad
      exact hunder (by simp [hmem, hsome])
    · rename_i hclosing
      left
      obtain ⟨rfl, rfl⟩ := Prod.mk.inj (Option.some.inj h)
      exact ⟨f, rest, hlane, rfl, by simpa using hclosing, rfl⟩

/-- No job is left where a closing request is taken. -/
theorem Placed.no_jobs (h : Placed w) {id : ℕ} (hclosing : id ∈ w.table.closing)
    (hidle : w.table.running = none) (hvad : w.table.vadRunning = none) : w.table.jobs = [] := by
  have hwaiting := (h.shut (List.ne_nil_of_mem hclosing)).2
  rw [List.eq_nil_iff_forall_not_mem]
  intro q hq
  rcases mem_placed_iff.1 ((h.sound.mem_placed q).2 hq) with hq | hq | hq | hq
  · rw [hwaiting] at hq
    cases hq
  · rw [hidle] at hq
    cases hq
  · rw [hvad] at hq
    cases hq
  · cases hq

theorem Shut.of_waiting (h : Shut t) (hclosing : t'.closing = t.closing)
    (hbackend : t'.backend = t.backend) (hwaiting : ∀ q ∈ t'.waiting, q ∈ t.waiting) : Shut t' := by
  intro hne
  rw [hclosing] at hne
  obtain ⟨hb, hw⟩ := h hne
  refine ⟨hbackend.trans hb, List.eq_nil_iff_forall_not_mem.2 fun q hq => ?_⟩
  have hold := hwaiting q hq
  rw [hw] at hold
  cases hold

theorem Placed.reacts (h : Placed w) (hreactions : Reactions w.table t') :
    Placed { w with table := t' } := by
  obtain ⟨hsound, hcalm⟩ := h.sound.reactions h.calm hreactions
  have hunmoved := h.sound.unmoved h.calm hreactions
  exact ⟨hsound, hcalm, h.shut.unmoved hunmoved, hunmoved.running.trans h.serving,
    hunmoved.vadRunning.trans h.vad⟩

theorem waiting_frame (t : Table σ) (f : Frame) :
    ({ t with lane := t.lane ++ [.frame f] } : Table σ).waiting = t.waiting := by
  unfold Table.waiting Table.refs
  rw [List.filterMap_append]
  change _ ++ [] ++ _ = _
  rw [List.append_nil]

/-- The changes of an offer. -/
theorem Offered.changes {header : Header} {payload : List UInt8} {closing : Bool}
    {left : Table σ × Bool} (h : Offered t header payload closing left) : Changes t left.1 := by
  cases h with
  | full hfull => exact Relation.ReflTransGen.refl
  | queued hclosing =>
    exact (Relation.ReflTransGen.single Change.numbered).tail (Change.queued _)
  | closes hclosing hfailed =>
    exact ((Relation.ReflTransGen.single Change.closes).trans
      (Changes.of_reactions hfailed.reactions)).tail (Change.queued _)

theorem Placed.offered (h : Placed w) {header : Header} {payload : List UInt8} {closing : Bool}
    {left : Table σ × Bool} (hoffered : Offered w.table header payload closing left) :
    Placed { w with table := left.1 } := by
  cases hoffered with
  | full hfull => exact h
  | queued hclosing =>
    obtain ⟨h₁, hcalm₁⟩ := h.sound.change h.calm .numbered
    obtain ⟨h₂, hcalm₂⟩ := h₁.change hcalm₁ (.queued ⟨w.table.next, header, payload⟩)
    refine ⟨h₂, hcalm₂, h.shut.of_waiting rfl rfl fun q hq => ?_, h.serving, h.vad⟩
    rwa [← waiting_frame w.table ⟨w.table.next, header, payload⟩]
  | @closes t₁ hclosing hfailed =>
    obtain ⟨h₁, hcalm₁⟩ := h.sound.change h.calm .closes
    obtain ⟨h₂, hcalm₂⟩ := h₁.reactions hcalm₁ hfailed.reactions
    obtain ⟨h₃, hcalm₃⟩ := h₂.change hcalm₂ (.queued ⟨w.table.next, header, payload⟩)
    refine ⟨h₃, hcalm₃, fun _ => ⟨hfailed.backend, ?_⟩, hfailed.running.trans h.serving,
      hfailed.vadRunning.trans h.vad⟩
    rw [List.eq_nil_iff_forall_not_mem]
    intro q hq
    dsimp only at hq
    rw [waiting_frame, hfailed.waiting] at hq
    exact hq.2 hq.1

/-- The end of a run lets go of its thread. -/
theorem Placed.finished (h : Placed w) {vad : Bool} {stage : Stage σ}
    (hrun : w.runOf vad = some (r, stage)) (hended : RunEnded w.table t' r) :
    Placed ({ w with table := t' }.endRun vad) := by
  have hr := h.runs hrun
  obtain ⟨hsound, hcalm⟩ := h.sound.change h.calm (hended.change hr)
  have hremoved := hended.removed h.sound hr
  obtain ⟨hrunning, hvadRunning⟩ := letGo_running w.table r
  obtain ⟨hlane, hvadLane, -⟩ := letGo_frame w.table r
  have hvad := h.vad_of_run hrun
  have hclosing : (w.table.letGo r).closing = w.table.closing ∧
      (w.table.letGo r).backend = w.table.backend := by
    unfold Table.letGo Table.mark
    dsimp only
    split_ifs
    · exact ⟨rfl, rfl⟩
    · exact ⟨rfl, rfl⟩
  refine ⟨?_, ?_, ?_, ?_, ?_⟩
  · rw [endRun_table]
    exact hsound
  · rw [endRun_table]
    exact hcalm
  · rw [endRun_table]
    refine h.shut.of_waiting (hremoved.closing.trans hclosing.1)
      (hremoved.backend.trans hclosing.2) fun q hq => ?_
    have hold := hremoved.waiting q hq
    rwa [waiting_congr hlane hvadLane] at hold
  · rw [endRun_table, runOf_endRun, runOf_table, hremoved.running, hrunning, hvad]
    cases vad with
    | false => rfl
    | true => exact h.serving
  · rw [endRun_table, runOf_endRun, runOf_table, hremoved.vadRunning, hvadRunning, hvad]
    cases vad with
    | false => exact h.vad
    | true => rfl

/-- A thread goes on with its job. -/
theorem Placed.setRun (h : Placed w) {vad : Bool} {stage : Stage σ}
    (hrun : w.runOf vad = some (r, stage)) (stage' : Stage σ) : Placed (w.setRun vad r stage') := by
  refine ⟨?_, ?_, ?_, ?_, ?_⟩
  · rw [setRun_table]
    exact h.sound
  · rw [setRun_table]
    exact h.calm
  · rw [setRun_table]
    exact h.shut
  · rw [setRun_table, runOf_setRun, h.serving]
    cases vad with
    | false => rw [hrun]; rfl
    | true => rfl
  · rw [setRun_table, runOf_setRun, h.vad]
    cases vad with
    | false => rfl
    | true => rw [hrun]; rfl

/-- The call of a job marks at most its start. -/
theorem call_cases (t : Table σ) (r : Ref) (state : Option σ) :
    (t.call r state).1 = t ∨ ∃ backend given, (t.objects r).backend = some backend ∧
      given = (if (t.objects r).vad then some state else none) ∧
      (t.call r state).1 = t.mark (.started r backend given) := by
  unfold Table.call
  dsimp only
  split
  · rename_i request backend hrequest hbackend
    split
    · left
      rfl
    · split
      · split
        · right
          exact ⟨backend, _, hbackend, rfl, rfl⟩
        · left
          rfl
      · right
        exact ⟨backend, _, hbackend, rfl, rfl⟩
  · left
    rfl

/-- **Every step keeps the threads in step with the table**, and is a
sequence of changes of it. -/
theorem Placed.step {a : Act σ} (h : Placed w) (hstep : w.step a = some w') :
    Placed w' ∧ Changes w.table w'.table := by
  cases a with
  | handle header payload permit =>
    simp only [World.step] at hstep
    split at hstep
    · obtain ⟨t', took, heq, hreactions⟩ := handle_reacts h.sound h.calm header payload permit
      rw [heq] at hstep
      obtain rfl := Option.some.inj hstep
      exact ⟨h.reacts hreactions, Changes.of_reactions hreactions⟩
    · cases hstep
  | unrun header =>
    obtain rfl := Option.some.inj hstep
    have hreactions := unrun_reacts w.table header
    exact ⟨h.reacts hreactions, Changes.of_reactions hreactions⟩
  | offer header payload =>
    simp only [World.step] at hstep
    obtain ⟨left, heq, hoffered⟩ := offer_spec h.sound h.calm header payload (closes header)
    rw [heq] at hstep
    obtain rfl := Option.some.inj hstep
    exact ⟨h.offered hoffered, hoffered.changes⟩
  | take =>
    simp only [World.step] at hstep
    split at hstep
    · rename_i t' r hserving htake
      obtain rfl := Option.some.inj hstep
      have hidle : w.table.running = none := by
        rw [h.serving]
        unfold World.runOf
        rw [hserving]
        rfl
      rcases take_cases htake with ⟨r', rest, hlane, hwork, rfl⟩ | ⟨f, rest, -, hwork, -⟩ |
        ⟨f, rest, -, hwork, -⟩
      · obtain rfl := Work.job.inj hwork
        have hchange : Change w.table { w.table with lane := rest, running := some r } :=
          .takenJob hlane hidle
        obtain ⟨hsound, hcalm⟩ := h.sound.change h.calm hchange
        refine ⟨⟨hsound, hcalm, h.shut.of_waiting rfl rfl fun q hq => ?_, rfl, h.vad⟩,
          Relation.ReflTransGen.single hchange⟩
        unfold Table.waiting Table.refs at hq ⊢
        rw [hlane]
        rcases List.mem_append.1 hq with hq | hq
        · exact List.mem_append_left _ (List.mem_cons_of_mem _ hq)
        · exact List.mem_append_right _ hq
      · cases hwork
      · cases hwork
    · rename_i t' f hserving htake
      obtain rfl := Option.some.inj hstep
      have hrun : w.runOf false = none := by
        unfold World.runOf
        rw [hserving]
        rfl
      have hidle : w.table.running = none := by
        rw [h.serving, hrun]
        rfl
      have hwaiting : ∀ {f : Frame} {rest : List Work}, w.table.lane = .frame f :: rest →
          ∀ t' : Table σ, t'.lane = rest → t'.vadLane = w.table.vadLane →
            t'.waiting = w.table.waiting := by
        intro f rest hlane t' hrest hvadLane
        unfold Table.waiting Table.refs
        rw [hlane, hrest, hvadLane]
        rfl
      rcases take_cases htake with ⟨r', rest, -, hwork, -⟩ | ⟨f', rest, hlane, hwork, -, rfl⟩ |
        ⟨f', rest, hlane, hwork, hclosing, hvad, rfl⟩
      · cases hwork
      · have hchange : Change w.table { w.table with lane := rest } := .takenFrame hlane
        obtain ⟨hsound, hcalm⟩ := h.sound.change h.calm hchange
        refine ⟨⟨hsound, hcalm, h.shut.of_waiting rfl rfl fun q hq => ?_, hidle, h.vad⟩,
          Relation.ReflTransGen.single hchange⟩
        rw [← hwaiting hlane { w.table with lane := rest } rfl rfl]
        exact hq
      · obtain ⟨hbackend, hnone⟩ := h.shut (List.ne_nil_of_mem hclosing)
        have hchange := Change.closed hlane (h.no_jobs hclosing hidle hvad) hbackend
        obtain ⟨hsound, hcalm⟩ := h.sound.change h.calm hchange
        refine ⟨⟨hsound, hcalm, fun _ => ?_, hidle, h.vad⟩, Relation.ReflTransGen.single hchange⟩
        refine ⟨hbackend, Eq.trans ?_ hnone⟩
        exact hwaiting hlane _ rfl rfl
    · cases hstep
  | «open» runsVad classes =>
    simp only [World.step] at hstep
    split at hstep
    · rename_i f hserving
      split at hstep
      · obtain rfl := Option.some.inj hstep
        have hchange : Change w.table (w.table.open runsVad classes) := .opened runsVad classes
        obtain ⟨hsound, hcalm⟩ := h.sound.change h.calm hchange
        obtain ⟨hlane, hvadLane, -, hrunning, hvadRunning, -⟩ := open_frame w.table runsVad classes
        refine ⟨⟨hsound, hcalm, ?_, ?_, ?_⟩, Relation.ReflTransGen.single hchange⟩
        · intro hclosing
          have hwaiting := waiting_congr hlane hvadLane
          unfold Table.open Table.mark at hclosing hwaiting ⊢
          dsimp only at hclosing hwaiting ⊢
          split_ifs at hclosing hwaiting ⊢ with hempty
          · exact absurd (List.isEmpty_iff.1 hempty) hclosing
          · obtain ⟨hbackend, hnone⟩ := h.shut hclosing
            exact ⟨hbackend, hwaiting.trans hnone⟩
        · rw [hrunning, h.serving]
          unfold World.runOf
          rw [hserving]
        · exact hvadRunning.trans h.vad
      · cases hstep
    · cases hstep
  | dispatched =>
    simp only [World.step] at hstep
    split at hstep
    · rename_i f opened hserving
      obtain rfl := Option.some.inj hstep
      refine ⟨⟨h.sound, h.calm, h.shut, ?_, h.vad⟩, Relation.ReflTransGen.refl⟩
      rw [h.serving]
      unfold World.runOf
      rw [hserving]
    · cases hstep
  | takeVad =>
    simp only [World.step] at hstep
    split at hstep
    · rename_i t' r hidle htake
      obtain rfl := Option.some.inj hstep
      have hvad : w.table.vadRunning = none := by
        rw [h.vad]
        exact congrArg (Option.map Prod.fst) hidle
      unfold Table.takeVad at htake
      split at htake
      · cases htake
      · rename_i r' rest hlane
        obtain ⟨rfl, rfl⟩ := Prod.mk.inj (Option.some.inj htake)
        have hchange : Change w.table { w.table with vadLane := rest, vadRunning := some r' } :=
          .takenVad hlane hvad
        obtain ⟨hsound, hcalm⟩ := h.sound.change h.calm hchange
        refine ⟨⟨hsound, hcalm, h.shut.of_waiting rfl rfl fun q hq => ?_, h.serving, rfl⟩,
          Relation.ReflTransGen.single hchange⟩
        unfold Table.waiting Table.refs at hq ⊢
        rw [hlane]
        rcases List.mem_append.1 hq with hq | hq
        · exact List.mem_append_left _ hq
        · exact List.mem_append_right _ (List.mem_cons_of_mem _ hq)
    · cases hstep
  | readState vad =>
    simp only [World.step] at hstep
    split at hstep
    · rename_i r hrun
      obtain rfl := Option.some.inj hstep
      refine ⟨h.setRun hrun _, ?_⟩
      rw [setRun_table]
    · cases hstep
  | call vad =>
    simp only [World.step] at hstep
    split at hstep
    · rename_i r state hrun
      obtain rfl := Option.some.inj hstep
      have hr := h.runs hrun
      rw [setRun_table]
      dsimp only
      rcases call_cases w.table r state with heq | ⟨backend, given, hbackend, hgiven, heq⟩
      · rw [heq]
        exact ⟨h.setRun hrun _, Relation.ReflTransGen.refl⟩
      · have hchange : Change w.table (w.table.mark (.started r backend given)) := by
          refine .started hr hbackend ?_
          rw [hgiven]
          split_ifs with hvad
          · rw [hvad]
            rfl
          · rw [Bool.not_eq_true] at hvad
            rw [hvad]
            rfl
        obtain ⟨hsound, hcalm⟩ := h.sound.change h.calm hchange
        rw [heq]
        refine ⟨Placed.setRun (w := { w with table := w.table.mark (.started r backend given) })
          ⟨hsound, hcalm, h.shut, h.serving, h.vad⟩ hrun _, Relation.ReflTransGen.single hchange⟩
    · cases hstep
  | finish vad outcome =>
    simp only [World.step] at hstep
    split at hstep
    · rename_i r stage hrun
      have hr := h.runs hrun
      obtain ⟨t', heq, hended⟩ := finish_spec h.sound hr stage outcome
      have hw' : some ({ w with table := t' }.endRun vad) = some w' := by
        cases stage with
        | taken => cases hstep
        | ready state => cases hstep
        | called =>
          dsimp only at hstep
          rwa [heq] at hstep
        | skipped =>
          dsimp only at hstep
          rwa [heq] at hstep
        | failing error =>
          dsimp only at hstep
          rwa [heq] at hstep
      obtain rfl := Option.some.inj hw'
      refine ⟨h.finished hrun hended, ?_⟩
      rw [endRun_table]
      exact Relation.ReflTransGen.single (hended.change hr)
    · cases hstep

/-- **Every run keeps them in step.** -/
theorem placed_run (hrun : Run World.step Free ({} : World σ) w) : Placed w :=
  hrun.invariant placed_first fun _ _ _ h _ hstep => (h.step hstep).1

/-! ## The load of a backend -/

/-- A `load_model`. -/
def loadHeader : Header :=
  [("schema_version", .str "0.1"), ("message_id", .str "1"), ("kind", .str "load_model")]

/-- A `job_submit` of one VAD frame of two samples. -/
def vadHeader (jobId utteranceId : ℕ) : Header :=
  [("schema_version", .str "0.1"), ("message_id", .str "2"), ("kind", .str "job_submit"),
    ("job_id", .int jobId), ("session_key", .int 5), ("generation", .int 1),
    ("job_class", .str "vad_frames"), ("progress_limit", .int 0), ("options", .dict []),
    ("input", .dict [("type", .str "vad_frames"), ("payload_length", .int 4),
      ("format", .dict [("encoding", .str "pcm_s16le"), ("sample_rate_hz", .int 16000),
        ("channels", .int 1)]),
      ("frame_samples", .int 2), ("frame_count", .int 1), ("utterance_id", .int utteranceId)])]

/-- The load of a backend that runs VAD jobs. -/
def loadActs : List (Act ℕ) :=
  [.offer loadHeader [], .take, .open true [.vadFrames], .dispatched]

/-- The run of a VAD job that leaves a state. -/
def vadActs (state : ℕ) : List (Act ℕ) :=
  [.takeVad, .readState true, .call true,
    .finish true (.returned (.vad [.int 1]) (some state))]

/-- The sidecar once a backend is loaded. -/
def loadedWorld : World ℕ := (exec World.step {} loadActs).getD {}

theorem exec_of_isSome {s : World σ} {acts : List (Act σ)}
    (h : (exec World.step s acts).isSome = true) :
    exec World.step s acts = some ((exec World.step s acts).getD {}) := by
  obtain ⟨u, hu⟩ := Option.isSome_iff_exists.1 h
  rw [hu]
  rfl

theorem loaded_run : Run World.step Free ({} : World ℕ) loadedWorld :=
  Run.of_exec (exec_of_isSome (by decide +kernel))

end Sidecar

end Tensorplate
