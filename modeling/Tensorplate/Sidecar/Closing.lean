import Tensorplate.Lib.History
import Tensorplate.Sidecar.Threads

/-!
# No job runs on a backend that is being replaced

Job messages are disabled when a closing request comes, and the request is
taken only once no job is left. So a job runs on the backend of the last
load before it that enabled one, and nothing closes the backend until the
run is over.
-/

namespace Tensorplate

namespace Sidecar

open Lib

variable {σ : Type} {t t' : Table σ} {w w' : World σ} {r q : Ref} {b : Backend}
variable {log more : List (Entry σ)}

/-! ## Where a job runs -/

/-- A closing request was taken. -/
def Entry.Closes (e : Entry σ) : Prop := ∃ id, e = .closed id

/-- A backend was enabled. -/
def Entry.Enables (e : Entry σ) : Prop := ∃ b, e = .opened b true

/-- The backend was enabled last, and nothing has closed it. -/
def Enabled (log : List (Entry σ)) (b : Backend) : Prop :=
  ∃ before since, log = before ++ .opened b true :: since ∧
    ∀ e ∈ since, ¬ e.Closes ∧ ¬ e.Enables

/-- **The job is of a backend**: it was enabled last before the submit, and
nothing has closed it since. -/
def RanOn (log : List (Entry σ)) (r : Ref) (b : Backend) : Prop :=
  ∃ before between header since,
    log = before ++ .opened b true :: (between ++ .arrived r header :: since) ∧
    (∀ e ∈ between, ¬ e.Closes ∧ ¬ e.Enables) ∧ ∀ e ∈ since, ¬ e.Closes

/-- The job was started, and its run is not over. -/
def Busy (log : List (Entry σ)) (r : Ref) : Prop :=
  ∃ before b given since, log = before ++ .started r b given :: since ∧ .finished r ∉ since

/-- **A job starts on its backend, and nothing is closed under a run.** -/
def Fits (past : List (Entry σ)) : Entry σ → Prop
  | .started r b _ => RanOn past r b
  | .closed _ => ∀ r, ¬ Busy past r
  | _ => True

theorem Enabled.append (h : Enabled log b) (hmore : ∀ e ∈ more, ¬ e.Closes ∧ ¬ e.Enables) :
    Enabled (log ++ more) b := by
  obtain ⟨before, since, rfl, hsince⟩ := h
  refine ⟨before, since ++ more, by simp, fun e he => ?_⟩
  rcases List.mem_append.1 he with he | he
  · exact hsince e he
  · exact hmore e he

theorem RanOn.append (h : RanOn log r b) (hmore : ∀ e ∈ more, ¬ e.Closes) :
    RanOn (log ++ more) r b := by
  obtain ⟨before, between, header, since, rfl, hbetween, hsince⟩ := h
  refine ⟨before, between, header, since ++ more, by simp, hbetween, fun e he => ?_⟩
  rcases List.mem_append.1 he with he | he
  · exact hsince e he
  · exact hmore e he

/-- A submit is of the backend that is enabled. -/
theorem Enabled.ranOn (h : Enabled log b) (header : Header) (hmore : ∀ e ∈ more, ¬ e.Closes) :
    RanOn (log ++ .arrived r header :: more) r b := by
  obtain ⟨before, since, rfl, hsince⟩ := h
  exact ⟨before, since, header, more, by simp, hsince, hmore⟩

/-- A run that goes on began before entries that start none. -/
theorem Busy.of_append (h : Busy (log ++ more) r) (hmore : ∀ b given, .started r b given ∉ more) :
    Busy log r ∧ .finished r ∉ more := by
  obtain ⟨before, b, given, since, heq, hsince⟩ := h
  rcases List.append_eq_append_iff.1 heq with ⟨as, rfl, hmore'⟩ | ⟨bs, rfl, hcons⟩
  · exact absurd (by rw [hmore']; simp) (hmore b given)
  · rcases bs with _ | ⟨e, bs⟩
    · rw [List.nil_append] at hcons
      exact absurd (by rw [← hcons]; simp) (hmore b given)
    · rw [List.cons_append, List.cons.injEq] at hcons
      obtain ⟨rfl, rfl⟩ := hcons
      rw [List.mem_append, not_or] at hsince
      exact ⟨⟨before, b, given, bs, rfl, hsince.1⟩, hsince.2⟩

theorem Busy.of_concat {e : Entry σ} (h : Busy (log ++ [e]) r) :
    (∃ b given, e = .started r b given) ∨ Busy log r := by
  by_cases hstarts : ∃ b given, e = .started r b given
  · exact Or.inl hstarts
  · push Not at hstarts
    refine Or.inr (Busy.of_append h fun b given hmem => ?_).1
    exact hstarts b given (List.mem_singleton.1 hmem).symm

/-- What a message writes neither closes, enables, starts nor ends. -/
theorem Entry.IsReaction.harmless {e : Entry σ} (h : e.IsReaction) :
    ¬ e.Closes ∧ ¬ e.Enables ∧ (∀ past, Fits past e) ∧ (∀ r b given, e ≠ .started r b given) ∧
      (∀ r, e ≠ .finished r) ∧ ∀ b enabled, e ≠ .opened b enabled := by
  refine ⟨?_, ?_, fun past => ?_, ?_, ?_, ?_⟩
  · rintro ⟨id, rfl⟩
    exact h
  · rintro ⟨b, rfl⟩
    exact h
  · cases e with
    | started r b given => exact h.elim
    | closed id => exact h.elim
    | sent m => trivial
    | arrived r header => trivial
    | pending s => trivial
    | scored r s u state => trivial
    | closes id => trivial
    | opened b enabled => trivial
    | finished r => trivial
  · rintro r b given rfl
    exact h
  · rintro r rfl
    exact h
  · rintro b enabled rfl
    exact h

/-! ## The backends of the jobs -/

/-- **What the log says of the backends.** -/
structure Backed (t : Table σ) : Prop where
  enabled : ∀ b, t.backend = some b → Enabled t.log b
  live : ∀ r ∈ t.jobs, ∃ b, (t.objects r).backend = some b ∧ RanOn t.log r b
  lawful : Lawful Fits t.log
  busy : ∀ r, Busy t.log r → t.Runs r
  numbers : ∀ b enabled, .opened b enabled ∈ t.log → b.opened < t.next
  once : ∀ b enabled enabled', .opened b enabled ∈ t.log → .opened b enabled' ∈ t.log →
    enabled = enabled'

/-- Entries that are none of the backends' leave what the log says of them. -/
theorem Backed.extend (h : Backed t) (hlog : t'.log = t.log ++ more)
    (hharmless : ∀ e ∈ more, ¬ e.Closes ∧ ¬ e.Enables ∧ (∀ past, Fits past e) ∧
      (∀ r b given, e ≠ .started r b given) ∧ ∀ b enabled, e ≠ .opened b enabled)
    (hbackend : t'.backend = none ∨ t'.backend = t.backend) (hnext : t.next ≤ t'.next)
    (hruns : ∀ r, t.Runs r → .finished r ∈ more ∨ t'.Runs r)
    (hjobs : ∀ r ∈ t'.jobs, r ∈ t.jobs ∧ (t'.objects r).backend = (t.objects r).backend ∨
      ∃ b, (t'.objects r).backend = some b ∧ RanOn t'.log r b) : Backed t' := by
  refine ⟨fun b hb => ?_, fun r hr => ?_, ?_, fun r hbusy => ?_, fun b enabled hmem => ?_,
    fun b enabled enabled' hmem hmem' => ?_⟩
  · rcases hbackend with hnone | hsame
    · rw [hnone] at hb
      cases hb
    · rw [hsame] at hb
      rw [hlog]
      exact (h.enabled b hb).append fun e he => ⟨(hharmless e he).1, (hharmless e he).2.1⟩
  · rcases hjobs r hr with ⟨hold, hsame⟩ | hnew
    · obtain ⟨b, hb, hran⟩ := h.live r hold
      refine ⟨b, hsame.trans hb, ?_⟩
      rw [hlog]
      exact hran.append fun e he => (hharmless e he).1
    · exact hnew
  · rw [hlog]
    exact h.lawful.append fun e he => (hharmless e he).2.2.1
  · rw [hlog] at hbusy
    obtain ⟨hold, hgoing⟩ := hbusy.of_append fun b given hmem =>
      (hharmless _ hmem).2.2.2.1 r b given rfl
    rcases hruns r (h.busy r hold) with hfinished | hruns
    · exact absurd hfinished hgoing
    · exact hruns
  · rw [hlog] at hmem
    rcases List.mem_append.1 hmem with hmem | hmem
    · exact (h.numbers b enabled hmem).trans_le hnext
    · exact absurd rfl ((hharmless _ hmem).2.2.2.2 b enabled)
  · rw [hlog] at hmem hmem'
    rcases List.mem_append.1 hmem with hmem | hmem
    · rcases List.mem_append.1 hmem' with hmem' | hmem'
      · exact h.once b enabled enabled' hmem hmem'
      · exact absurd rfl ((hharmless _ hmem').2.2.2.2 b enabled')
    · exact absurd rfl ((hharmless _ hmem).2.2.2.2 b enabled)

/-- A job that is left has its backend. -/
theorem Removed.job (h : Removed t t' r) (hsound : Sound t []) (hq : q ∈ t'.jobs) :
    q ≠ r ∧ q ∈ t.jobs ∧ (t'.objects q).backend = (t.objects q).backend := by
  rw [h.jobs, hsound.nodup.mem_erase_iff] at hq
  exact ⟨hq.1, hq.2, (core_eq (h.others q hq.1)).2.2.2.1⟩

theorem Acknowledged.backend_eq (h : Acknowledged t t' r) (q : Ref) :
    (t'.objects q).backend = (t.objects q).backend := by
  by_cases hq : q = r
  · rw [hq, h.object]
    rfl
  · rw [h.others q hq]

/-- The jobs behind a reaction: they had their backend, or they were just
admitted. -/
theorem Reaction.backends (hsound : Sound t []) (h : Backed t) (hreaction : Reaction t t') :
    ∀ q ∈ t'.jobs, q ∈ t.jobs ∧ (t'.objects q).backend = (t.objects q).backend ∨
      ∃ b, (t'.objects q).backend = some b ∧ RanOn t'.log q b := by
  intro q hq
  cases hreaction with
  | note he => exact Or.inl ⟨hq, rfl⟩
  | @unread header answers hsubmit hanswers =>
    obtain ⟨held, heq⟩ := resetUnrun_frame (t.noted header answers) header
    rw [heq] at hq ⊢
    exact Or.inl ⟨hq, rfl⟩
  | @refused _ header job error hmade hended =>
    have hmadeSound := hsound.made header job
    obtain ⟨hne, hold, hbackend⟩ :=
      (hended.removed hmadeSound (hmade.ids hsound)).job hmadeSound hq
    rw [made_other t header job hne] at hbackend
    exact Or.inl ⟨hold, hbackend⟩
  | @accepted _ header job hadmitted haccepted =>
    by_cases hne : q = t.next
    · right
      obtain ⟨b, hb⟩ := Option.isSome_iff_exists.1 hadmitted.enabled
      refine ⟨b, ?_, ?_⟩
      · rw [hne, haccepted.object]
        unfold Table.admitted
        rw [made_object]
        exact hadmitted.backend.trans hb
      · have hlog : t'.log = t.log ++ .arrived t.next header ::
            [.sent (.event t.next job.identity .accepted)] := by
          rw [haccepted.log, made_object]
          exact List.append_assoc _ _ _
        rw [hlog, hne]
        refine (h.enabled b hb).ranOn header fun e he => ?_
        rw [List.mem_singleton.1 he]
        rintro ⟨id, hid⟩
        cases hid
    · rw [haccepted.jobs, List.mem_append, List.mem_singleton] at hq
      left
      refine ⟨hq.resolve_right hne, ?_⟩
      rw [haccepted.others q hne, made_other t header job hne]
  | acknowledged hr hc hack =>
    rw [hack.jobs] at hq
    exact Or.inl ⟨hq, hack.backend_eq q⟩
  | @cancelled t₁ _ r error hr hack hended =>
    have hsound₁ := hack.sound hsound
    have hjob : r ∈ t₁.jobs := by
      rw [hack.jobs]
      exact hsound.job_of_waiting hr
    obtain ⟨-, hold, hbackend⟩ :=
      (hended.removed hsound₁ fun q hq hid => hsound₁.ids q hq r hjob hid).job hsound₁ hq
    rw [hack.jobs] at hold
    exact Or.inl ⟨hold, hbackend.trans (hack.backend_eq q)⟩
  | @failed _ r error hr hended =>
    obtain ⟨-, hold, hbackend⟩ := (hended.removed hsound fun q hq hid =>
      hsound.ids q hq r (hsound.job_of_waiting hr) hid).job hsound hq
    exact Or.inl ⟨hold, hbackend⟩
  | pended hs hlive => exact Or.inl ⟨hq, rfl⟩
  | released hs hlive => exact Or.inl ⟨hq, rfl⟩

theorem Backed.reaction (h : Backed t) (hsound : Sound t []) (hreaction : Reaction t t') :
    Backed t' := by
  obtain ⟨more, hlog, hmore⟩ := hreaction.log
  have hunmoved := hreaction.unmoved hsound
  refine h.extend hlog (fun e he => ?_) (Or.inr hunmoved.backend) hunmoved.next (fun r hr => ?_)
    (hreaction.backends hsound h)
  · obtain ⟨hcloses, henables, hfits, hstarted, -, hopened⟩ := (hmore e he).harmless
    exact ⟨hcloses, henables, hfits, hstarted, hopened⟩
  · right
    unfold Table.Runs
    rw [hunmoved.running, hunmoved.vadRunning]
    exact hr

/-- The end of a run writes nothing of the backends. -/
theorem RunEnded.extends (h : RunEnded t t' r) : ∃ more, t'.log = t.log ++ .finished r :: more ∧
    ∀ e ∈ more, ¬ e.Closes ∧ ¬ e.Enables ∧ (∀ past, Fits past e) ∧
      (∀ r b given, e ≠ .started r b given) ∧ ∀ b enabled, e ≠ .opened b enabled := by
  obtain ⟨-, -, -, -, -, -, -, hgo⟩ := letGo_frame t r
  have hreact : ∀ {e : Entry σ}, e.IsReaction → ¬ e.Closes ∧ ¬ e.Enables ∧
      (∀ past, Fits past e) ∧ (∀ r b given, e ≠ .started r b given) ∧
      ∀ b enabled, e ≠ .opened b enabled := by
    intro e he
    obtain ⟨hcloses, henables, hfits, hstarted, -, hopened⟩ := he.harmless
    exact ⟨hcloses, henables, hfits, hstarted, hopened⟩
  rcases h with ⟨error, hended⟩ | ⟨rendered, state, hcompleted⟩
  · obtain ⟨more, hlog, hmore, -⟩ := hended.log
    rw [hgo, List.append_assoc] at hlog
    exact ⟨more, hlog, fun e he => hreact (hmore e he)⟩
  · obtain ⟨answers, hlog, hanswers⟩ := hcompleted.toDropped.log
    rw [hgo, List.append_assoc, List.singleton_append] at hlog
    refine ⟨_, hlog, fun e he => ?_⟩
    simp only [List.mem_append, List.mem_cons, List.not_mem_nil, or_false] at he
    rcases he with (rfl | he | rfl) | he
    · exact hreact trivial
    · unfold Table.scoredMark at he
      split at he
      · rw [List.mem_singleton.1 he]
        refine ⟨?_, ?_, fun _ => trivial, by simp, by simp⟩
        · rintro ⟨id, hid⟩
          cases hid
        · rintro ⟨b, hb⟩
          cases hb
      · cases he
    · exact hreact trivial
    · rw [hanswers e he]
      exact hreact trivial

theorem Backed.runEnded (h : Backed t) (hsound : Sound t []) (hr : t.Runs r)
    (hended : RunEnded t t' r) : Backed t' := by
  obtain ⟨more, hlog, hmore⟩ := hended.extends
  have hremoved := hended.removed hsound hr
  obtain ⟨hsound₁, -, -⟩ := hsound.letGo hr
  obtain ⟨-, -, hjobs, hobjects, -, hnext, -, -⟩ := letGo_frame t r
  obtain ⟨hrunning, hvadRunning⟩ := letGo_running t r
  have hbackend : (t.letGo r).backend = t.backend := by
    unfold Table.letGo Table.mark
    dsimp only
    split_ifs
    · rfl
    · rfl
  refine h.extend hlog (fun e he => ?_) (Or.inr (hremoved.backend.trans hbackend))
    (by rw [hremoved.next, hnext]) (fun q hq => ?_) fun q hq => ?_
  · rcases List.mem_cons.1 he with rfl | he
    · refine ⟨?_, ?_, fun _ => trivial, by simp, by simp⟩
      · rintro ⟨id, hid⟩
        cases hid
      · rintro ⟨b, hb⟩
        cases hb
    · exact hmore e he
  · by_cases hqr : q = r
    · left
      rw [hqr]
      simp
    · right
      unfold Table.Runs
      rw [hremoved.running, hremoved.vadRunning, hrunning, hvadRunning]
      have hne : ∀ {x : Option Ref}, x = some r → x ≠ some q := by
        intro x hx hxq
        rw [hx] at hxq
        exact hqr (Option.some.inj hxq).symm
      rcases hr with hr | hr
      · rw [hsound.main r (List.mem_append_right _ (by simp [hr]))]
        exact Or.inr (hq.resolve_left (hne hr))
      · rw [hsound.vad r (List.mem_append_right _ (by simp [hr]))]
        exact Or.inl (hq.resolve_right (hne hr))
  · left
    rw [hremoved.jobs, hsound₁.nodup.mem_erase_iff, hjobs] at hq
    rw [(core_eq (hremoved.others q hq.1)).2.2.2.1, hobjects]
    exact ⟨hq.2, rfl⟩

/-- An open, which enables its backend unless a closing request waits. -/
theorem Backed.opened (h : Backed t) (runsVad : Bool) (classes : List JobClass) :
    Backed (t.open runsVad classes) := by
  obtain ⟨-, -, hjobs, hrunning, hvadRunning, -, hobjects, -, hnext⟩ :=
    open_frame t runsVad classes
  obtain ⟨enabled, hlog, hbackend⟩ : ∃ enabled,
      (t.open runsVad classes).log = t.log ++ [.opened ⟨t.next, runsVad⟩ enabled] ∧
      (t.open runsVad classes).backend =
        if enabled then some ⟨t.next, runsVad⟩ else t.backend := by
    unfold Table.open Table.mark
    dsimp only
    split_ifs
    · exact ⟨true, rfl, rfl⟩
    · exact ⟨false, rfl, rfl⟩
  have hcloses : ∀ e ∈ [(.opened ⟨t.next, runsVad⟩ enabled : Entry σ)], ¬ e.Closes := by
    intro e he
    rw [List.mem_singleton.1 he]
    rintro ⟨id, hid⟩
    cases hid
  refine ⟨fun b hb => ?_, fun q hq => ?_, ?_, fun q hbusy => ?_, fun b e hmem => ?_,
    fun b e e' hmem hmem' => ?_⟩
  · rw [hbackend] at hb
    rw [hlog]
    cases enabled with
    | true =>
      obtain rfl := Option.some.inj hb
      exact ⟨t.log, [], rfl, by simp⟩
    | false =>
      refine (h.enabled b hb).append fun e he => ⟨hcloses e he, ?_⟩
      rw [List.mem_singleton.1 he]
      rintro ⟨b, hb⟩
      cases hb
  · rw [hjobs] at hq
    obtain ⟨b, hb, hran⟩ := h.live q hq
    rw [hobjects, hlog]
    exact ⟨b, hb, hran.append hcloses⟩
  · rw [hlog]
    exact lawful_append_singleton.2 ⟨h.lawful, trivial⟩
  · rw [hlog] at hbusy
    unfold Table.Runs
    rw [hrunning, hvadRunning]
    rcases hbusy.of_concat with ⟨b, given, heq⟩ | hold
    · cases heq
    · exact h.busy q hold
  · rw [hlog, List.mem_append, List.mem_singleton] at hmem
    rw [hnext]
    rcases hmem with hmem | heq
    · exact (h.numbers b e hmem).trans (Nat.lt_succ_self _)
    · rw [Entry.opened.injEq] at heq
      rw [heq.1]
      exact Nat.lt_succ_self _
  · rw [hlog, List.mem_append, List.mem_singleton] at hmem hmem'
    have hnew : ∀ e, (.opened ⟨t.next, runsVad⟩ e : Entry σ) ∉ t.log := by
      intro e hold
      exact absurd (h.numbers _ e hold) (lt_irrefl _)
    rcases hmem with hmem | heq
    · rcases hmem' with hmem' | heq'
      · exact h.once b e e' hmem hmem'
      · rw [Entry.opened.injEq] at heq'
        rw [heq'.1] at hmem
        exact absurd hmem (hnew e)
    · rw [Entry.opened.injEq] at heq
      rcases hmem' with hmem' | heq'
      · rw [heq.1] at hmem'
        exact absurd hmem' (hnew e')
      · rw [Entry.opened.injEq] at heq'
        rw [heq.2, heq'.2]

/-- **Every change keeps what the log says of the backends.** -/
theorem Backed.change (h : Backed t) (hsound : Sound t []) (hchange : Change t t') : Backed t' := by
  have hquiet : ∀ e ∈ ([] : List (Entry σ)), ¬ e.Closes ∧ ¬ e.Enables ∧ (∀ past, Fits past e) ∧
      (∀ r b given, e ≠ .started r b given) ∧ ∀ b enabled, e ≠ .opened b enabled := by
    intro e he
    cases he
  have hjobs : ∀ t' : Table σ, t'.jobs = t.jobs → t'.objects = t.objects → ∀ q ∈ t'.jobs,
      q ∈ t.jobs ∧ (t'.objects q).backend = (t.objects q).backend ∨
        ∃ b, (t'.objects q).backend = some b ∧ RanOn t'.log q b := by
    intro t' hjobs hobjects q hq
    left
    rw [hobjects]
    rw [hjobs] at hq
    exact ⟨hq, rfl⟩
  cases hchange with
  | reacts hreaction => exact h.reaction hsound hreaction
  | closes =>
    refine h.extend rfl (fun e he => ?_) (Or.inl rfl) (Nat.le_succ _) (fun _ hr => Or.inr hr)
      (hjobs _ rfl rfl)
    rw [List.mem_singleton.1 he]
    refine ⟨?_, ?_, fun _ => trivial, by simp, by simp⟩
    · rintro ⟨id, hid⟩
      cases hid
    · rintro ⟨b, hb⟩
      cases hb
  | numbered =>
    exact h.extend (List.append_nil _).symm hquiet (Or.inr rfl) (Nat.le_succ _)
      (fun _ hr => Or.inr hr) (hjobs _ rfl rfl)
  | queued f =>
    exact h.extend (List.append_nil _).symm hquiet (Or.inr rfl) le_rfl
      (fun _ hr => Or.inr hr) (hjobs _ rfl rfl)
  | takenJob hlane hidle =>
    refine h.extend (List.append_nil _).symm hquiet (Or.inr rfl) le_rfl (fun q hq => ?_)
      (hjobs _ rfl rfl)
    right
    rcases hq with hq | hq
    · rw [hidle] at hq
      cases hq
    · exact Or.inr hq
  | takenFrame hlane =>
    exact h.extend (List.append_nil _).symm hquiet (Or.inr rfl) le_rfl
      (fun _ hr => Or.inr hr) (hjobs _ rfl rfl)
  | @closed f rest hlane hnone hbackend =>
    have hidle : ∀ r, ¬ Busy t.log r := by
      intro r hbusy
      have hmem := hsound.job_of_runs (h.busy r hbusy)
      rw [hnone] at hmem
      cases hmem
    refine ⟨fun b hb => ?_, fun r hr => ?_, ?_, fun r hbusy => ?_, fun b enabled hmem => ?_,
      fun b enabled enabled' hmem hmem' => ?_⟩
    · have hb' : t.backend = some b := hb
      rw [hbackend] at hb'
      cases hb'
    · have hr' : r ∈ t.jobs := hr
      rw [hnone] at hr'
      cases hr'
    · exact lawful_append_singleton.2 ⟨h.lawful, hidle⟩
    · rcases hbusy.of_concat with ⟨b, given, heq⟩ | hold
      · cases heq
      · exact absurd hold (hidle r)
    · simp only [List.mem_append, List.mem_singleton, reduceCtorEq, or_false] at hmem
      exact h.numbers b enabled hmem
    · simp only [List.mem_append, List.mem_singleton, reduceCtorEq, or_false] at hmem hmem'
      exact h.once b enabled enabled' hmem hmem'
  | takenVad hlane hidle =>
    refine h.extend (List.append_nil _).symm hquiet (Or.inr rfl) le_rfl (fun q hq => ?_)
      (hjobs _ rfl rfl)
    right
    rcases hq with hq | hq
    · exact Or.inl hq
    · rw [hidle] at hq
      cases hq
  | opened runsVad classes => exact h.opened runsVad classes
  | @started r b given hr hb hgiven =>
    obtain ⟨b', hb', hran⟩ := h.live r (hsound.job_of_runs hr)
    have hsame : b' = b := by
      rw [hb] at hb'
      exact (Option.some.inj hb').symm
    rw [hsame] at hran
    refine ⟨fun b hb => ?_, fun q hq => ?_, ?_, fun q hbusy => ?_, fun b enabled hmem => ?_,
      fun b enabled enabled' hmem hmem' => ?_⟩
    · refine (h.enabled b hb).append fun e he => ?_
      rw [List.mem_singleton.1 he]
      refine ⟨?_, ?_⟩
      · rintro ⟨id, hid⟩
        cases hid
      · rintro ⟨b, hb⟩
        cases hb
    · obtain ⟨b, hb, hran⟩ := h.live q hq
      refine ⟨b, hb, hran.append fun e he => ?_⟩
      rw [List.mem_singleton.1 he]
      rintro ⟨id, hid⟩
      cases hid
    · exact lawful_append_singleton.2 ⟨h.lawful, hran⟩
    · rcases hbusy.of_concat with ⟨b, given, heq⟩ | hold
      · rw [Entry.started.injEq] at heq
        rw [← heq.1]
        exact hr
      · exact h.busy q hold
    · unfold Table.mark at hmem
      simp only [List.mem_append, List.mem_singleton, reduceCtorEq, or_false] at hmem
      exact h.numbers b enabled hmem
    · unfold Table.mark at hmem hmem'
      simp only [List.mem_append, List.mem_singleton, reduceCtorEq, or_false] at hmem hmem'
      exact h.once b enabled enabled' hmem hmem'
  | @failedRun _ r error hr hended => exact h.runEnded hsound hr (Or.inl ⟨error, hended⟩)
  | @completedRun _ r rendered state hr hcompleted =>
    exact h.runEnded hsound hr (Or.inr ⟨rendered, state, hcompleted⟩)

theorem Backed.changes (h : Backed t) (hsound : Sound t []) (hcalm : Calm t)
    (hchanges : Changes t t') : Backed t' ∧ Sound t' [] ∧ Calm t' := by
  induction hchanges with
  | refl => exact ⟨h, hsound, hcalm⟩
  | tail _ hchange ih =>
    obtain ⟨hbacked, hsound', hcalm'⟩ := ih
    exact ⟨hbacked.change hsound' hchange, hsound'.change hcalm' hchange⟩

/-! ## The requests -/

/-- **What the requests that wait and the one that is dispatched allow.** -/
structure Guarded (w : World σ) : Prop where
  frames : ∀ f ∈ w.table.frames, (f.id ∈ w.table.closing ↔ closes f.header = true) ∧
    f.id < w.table.next
  ids : (w.table.frames.map Frame.id).Nodup
  old : ∀ id ∈ w.table.closing, id < w.table.next
  dispatched : ∀ f, w.serving = .dispatching f false → closes f.header = true →
    w.table.backend = none ∧ w.table.waiting = [] ∧ w.table.vadRunning = none

/-- A message leaves the requests alone. -/
theorem Guarded.unmoved (h : Guarded w) (hunmoved : Unmoved w.table t') :
    Guarded { w with table := t' } := by
  refine ⟨fun f hf => ?_, ?_, fun id hid => ?_, fun f hserving hcloses => ?_⟩
  · rw [hunmoved.frames] at hf
    rw [hunmoved.closing]
    exact ⟨(h.frames f hf).1, (h.frames f hf).2.trans_le hunmoved.next⟩
  · rw [hunmoved.frames]
    exact h.ids
  · rw [hunmoved.closing] at hid
    exact (h.old id hid).trans_le hunmoved.next
  · obtain ⟨hbackend, hwaiting, hvad⟩ := h.dispatched f hserving hcloses
    refine ⟨hunmoved.backend.trans hbackend, ?_, hunmoved.vadRunning.trans hvad⟩
    rw [List.eq_nil_iff_forall_not_mem]
    intro q hq
    have hold := hunmoved.waiting hbackend q hq
    rw [hwaiting] at hold
    cases hold

theorem frames_queued (t : Table σ) (f : Frame) :
    ({ t with lane := t.lane ++ [.frame f] } : Table σ).frames = t.frames ++ [f] :=
  List.filterMap_append

/-- A request that is queued has a number of its own. -/
theorem Guarded.queue (h : Guarded w) {f : Frame} (hid : f.id = w.table.next)
    (hframes : t'.frames = w.table.frames ++ [f]) (hnext : t'.next = w.table.next + 1)
    (hclosing : t'.closing = if closes f.header then w.table.next :: w.table.closing
      else w.table.closing)
    (hdispatched : ∀ f, w.serving = .dispatching f false → closes f.header = true →
      t'.backend = none ∧ t'.waiting = [] ∧ t'.vadRunning = none) :
    Guarded { w with table := t' } := by
  have hmem : ∀ id, id ≠ w.table.next → (id ∈ t'.closing ↔ id ∈ w.table.closing) := by
    intro id hne
    rw [hclosing]
    split_ifs
    · rw [List.mem_cons]
      exact or_iff_right hne
    · rfl
  refine ⟨fun f' hf' => ?_, ?_, fun id hid => ?_, hdispatched⟩
  · rw [hframes, List.mem_append, List.mem_singleton] at hf'
    rw [hnext]
    rcases hf' with hf' | rfl
    · obtain ⟨hiff, hlt⟩ := h.frames f' hf'
      exact ⟨(hmem f'.id hlt.ne).trans hiff, hlt.trans (Nat.lt_succ_self _)⟩
    · refine ⟨?_, by rw [hid]; exact Nat.lt_succ_self _⟩
      rw [hid, hclosing]
      split_ifs with hcloses
      · simp [hcloses]
      · simp only [hcloses, iff_false, Bool.false_eq_true]
        exact fun hold => lt_irrefl _ (h.old _ hold)
  · rw [hframes, List.map_append, List.nodup_append]
    refine ⟨h.ids, by simp, fun id hold id' hnew heq => ?_⟩
    obtain ⟨f', hf', rfl⟩ := List.mem_map.1 hold
    simp only [List.map_cons, List.map_nil, List.mem_singleton] at hnew
    rw [hnew, hid] at heq
    exact (h.frames f' hf').2.ne heq
  · rw [hclosing] at hid
    rw [hnext]
    split_ifs at hid
    · rcases List.mem_cons.1 hid with rfl | hid
      · exact Nat.lt_succ_self _
      · exact (h.old id hid).trans (Nat.lt_succ_self _)
    · exact (h.old id hid).trans (Nat.lt_succ_self _)

theorem Guarded.offered (h : Guarded w) {header : Header} {payload : List UInt8}
    {left : Table σ × Bool} (hoffered : Offered w.table header payload (closes header) left) :
    Guarded { w with table := left.1 } := by
  cases hoffered with
  | full hfull => exact h
  | queued hcloses =>
    refine h.queue (f := ⟨w.table.next, header, payload⟩) rfl (frames_queued _ _) rfl ?_
      fun f hserving hclosing => ?_
    · rw [hcloses]
      rfl
    · obtain ⟨hbackend, hwaiting, hvad⟩ := h.dispatched f hserving hclosing
      refine ⟨hbackend, ?_, hvad⟩
      exact (waiting_frame { w.table with next := w.table.next + 1 } _).trans hwaiting
  | @closes t₁ hcloses hfailed =>
    refine h.queue (f := ⟨w.table.next, header, payload⟩) rfl ?_ hfailed.next ?_
      fun f hserving hclosing => ?_
    · rw [frames_queued, hfailed.frames]
      rfl
    · rw [hcloses]
      exact hfailed.closing
    · obtain ⟨-, -, hvad⟩ := h.dispatched f hserving hclosing
      refine ⟨hfailed.backend, ?_, hfailed.vadRunning.trans hvad⟩
      rw [waiting_frame, List.eq_nil_iff_forall_not_mem]
      intro q hq
      rw [hfailed.waiting] at hq
      exact hq.2 hq.1

/-- The table goes on with the same requests. -/
theorem Guarded.congr {w w' : World σ} (h : Guarded w) (hframes : w'.table.frames = w.table.frames)
    (hclosing : w'.table.closing = w.table.closing) (hnext : w.table.next ≤ w'.table.next)
    (hdispatched : ∀ f, w'.serving = .dispatching f false → closes f.header = true →
      w'.table.backend = none ∧ w'.table.waiting = [] ∧ w'.table.vadRunning = none) :
    Guarded w' := by
  refine ⟨fun f hf => ?_, ?_, fun id hid => ?_, hdispatched⟩
  · rw [hframes] at hf
    rw [hclosing]
    exact ⟨(h.frames f hf).1, (h.frames f hf).2.trans_le hnext⟩
  · rw [hframes]
    exact h.ids
  · rw [hclosing] at hid
    exact (h.old id hid).trans_le hnext

/-- The first request leaves the lane. -/
theorem Guarded.pop {w w' : World σ} (h : Guarded w) {f : Frame} {rest : List Work}
    (hlane : w.table.lane = .frame f :: rest) (hrest : w'.table.lane = rest)
    (hclosing : w'.table.closing = w.table.closing.filter fun id => id ≠ f.id)
    (hnext : w'.table.next = w.table.next)
    (hdispatched : ∀ f, w'.serving = .dispatching f false → closes f.header = true →
      w'.table.backend = none ∧ w'.table.waiting = [] ∧ w'.table.vadRunning = none) :
    Guarded w' := by
  have hframes : w.table.frames = f :: w'.table.frames := by
    unfold Table.frames
    rw [hlane, hrest]
    rfl
  have hids := h.ids
  rw [hframes, List.map_cons, List.nodup_cons] at hids
  refine ⟨fun f' hf' => ?_, hids.2, fun id hid => ?_, hdispatched⟩
  · obtain ⟨hiff, hlt⟩ := h.frames f' (by rw [hframes]; exact List.mem_cons_of_mem _ hf')
    have hne : f'.id ≠ f.id := by
      intro heq
      exact hids.1 (by rw [← heq]; exact List.mem_map_of_mem hf')
    rw [hclosing, List.mem_filter, hnext]
    exact ⟨by rw [← hiff]; simp [hne], hlt⟩
  · rw [hclosing, List.mem_filter] at hid
    rw [hnext]
    exact h.old id hid.1

/-- A run on the VAD thread excludes a closing dispatch. -/
theorem Guarded.not_dispatching (h : Guarded w) (hvad : w.table.vadRunning ≠ none ∨
    w.table.vadLane ≠ []) {f : Frame} (hserving : w.serving = .dispatching f false) :
    closes f.header ≠ true := by
  intro hcloses
  obtain ⟨-, hwaiting, hnone⟩ := h.dispatched f hserving hcloses
  rcases hvad with hvad | hvad
  · exact hvad hnone
  · unfold Table.waiting at hwaiting
    exact hvad (List.append_eq_nil_iff.1 hwaiting).2

/-- **Every step keeps the requests guarded.** -/
theorem Guarded.step {a : Act σ} (h : Guarded w) (hplaced : Placed w) (hstep : w.step a = some w') :
    Guarded w' := by
  cases a with
  | handle header payload permit =>
    simp only [World.step] at hstep
    split at hstep
    · obtain ⟨t', took, heq, hreactions⟩ :=
        handle_reacts hplaced.sound hplaced.calm header payload permit
      rw [heq] at hstep
      obtain rfl := Option.some.inj hstep
      exact h.unmoved (hplaced.sound.unmoved hplaced.calm hreactions)
    · cases hstep
  | unrun header =>
    obtain rfl := Option.some.inj hstep
    exact h.unmoved (hplaced.sound.unmoved hplaced.calm (unrun_reacts w.table header))
  | offer header payload =>
    simp only [World.step] at hstep
    obtain ⟨left, heq, hoffered⟩ :=
      offer_spec hplaced.sound hplaced.calm header payload (closes header)
    rw [heq] at hstep
    obtain rfl := Option.some.inj hstep
    exact h.offered hoffered
  | take =>
    simp only [World.step] at hstep
    split at hstep
    · rename_i t' r hserving htake
      obtain rfl := Option.some.inj hstep
      rcases take_cases htake with ⟨r', rest, hlane, hwork, rfl⟩ | ⟨f, rest, -, hwork, -⟩ |
        ⟨f, rest, -, hwork, -⟩
      · refine h.congr ?_ rfl le_rfl fun f hdispatching => by cases hdispatching
        unfold Table.frames
        rw [hlane]
        rfl
      · cases hwork
      · cases hwork
    · rename_i t' f hserving htake
      obtain rfl := Option.some.inj hstep
      rcases take_cases htake with ⟨r', rest, -, hwork, -⟩ | ⟨f', rest, hlane, hwork, hclosing, rfl⟩ |
        ⟨f', rest, hlane, hwork, hclosing, hvad, rfl⟩
      · cases hwork
      · obtain rfl := Work.frame.inj hwork
        refine h.pop hlane rfl ?_ rfl fun f' hdispatching hcloses => ?_
        · symm
          rw [List.filter_eq_self]
          intro id hid
          exact decide_eq_true fun heq => hclosing (heq ▸ hid)
        · rw [Serving.dispatching.injEq] at hdispatching
          rw [← hdispatching.1] at hcloses
          have hmem : f ∈ w.table.frames := by
            unfold Table.frames
            rw [hlane]
            simp [Work.frame?]
          exact absurd ((h.frames f hmem).1.2 hcloses) hclosing
      · refine h.pop hlane rfl rfl rfl fun f' hdispatching hcloses => ?_
        obtain ⟨hbackend, hwaiting⟩ := hplaced.shut (List.ne_nil_of_mem hclosing)
        refine ⟨hbackend, ?_, hvad⟩
        rw [← hwaiting]
        unfold Table.waiting Table.refs
        rw [hlane]
        rfl
    · cases hstep
  | «open» runsVad classes =>
    simp only [World.step] at hstep
    split at hstep
    · split at hstep
      · obtain rfl := Option.some.inj hstep
        obtain ⟨hlane, -, -, -, -, -, -, -, hnext⟩ := open_frame w.table runsVad classes
        refine h.congr (frames_congr hlane) ?_ (hnext ▸ Nat.le_succ _)
          fun f hdispatching => by cases hdispatching
        unfold Table.open Table.mark
        dsimp only
        split_ifs
        · rfl
        · rfl
      · cases hstep
    · cases hstep
  | dispatched =>
    simp only [World.step] at hstep
    split at hstep
    · obtain rfl := Option.some.inj hstep
      exact h.congr rfl rfl le_rfl fun f hdispatching => by cases hdispatching
    · cases hstep
  | takeVad =>
    simp only [World.step] at hstep
    split at hstep
    · rename_i t' r hidle htake
      obtain rfl := Option.some.inj hstep
      unfold Table.takeVad at htake
      split at htake
      · cases htake
      · rename_i r' rest hlane
        obtain ⟨rfl, rfl⟩ := Prod.mk.inj (Option.some.inj htake)
        refine h.congr rfl rfl le_rfl fun f hdispatching hcloses => ?_
        refine absurd hcloses (h.not_dispatching (Or.inr ?_) hdispatching)
        rw [hlane]
        exact List.cons_ne_nil _ _
    · cases hstep
  | readState vad =>
    simp only [World.step] at hstep
    split at hstep
    · rename_i r hrun
      obtain rfl := Option.some.inj hstep
      refine h.congr (by rw [setRun_table]) (by rw [setRun_table]) (by rw [setRun_table])
        fun f hdispatching hcloses => ?_
      rw [setRun_table]
      cases vad with
      | false => cases hdispatching
      | true => exact h.dispatched f hdispatching hcloses
    · cases hstep
  | call vad =>
    simp only [World.step] at hstep
    split at hstep
    · rename_i r state hrun
      obtain rfl := Option.some.inj hstep
      have hcall : ∃ log, (w.table.call r state).1 = { w.table with log := log } := by
        rcases call_cases w.table r state with heq | ⟨backend, given, -, -, heq⟩
        · exact ⟨w.table.log, heq⟩
        · exact ⟨_, heq⟩
      obtain ⟨log, hcall⟩ := hcall
      refine h.congr ?_ ?_ ?_ fun f hdispatching hcloses => ?_
      · rw [setRun_table, hcall]
        rfl
      · rw [setRun_table, hcall]
      · rw [setRun_table, hcall]
      · rw [setRun_table, hcall]
        cases vad with
        | false => cases hdispatching
        | true => exact h.dispatched f hdispatching hcloses
    · cases hstep
  | finish vad outcome =>
    simp only [World.step] at hstep
    split at hstep
    · rename_i r stage hrun
      have hr := hplaced.runs hrun
      obtain ⟨t', heq, hended⟩ := finish_spec hplaced.sound hr stage outcome
      have hw' : some ({ w with table := t' }.endRun vad) = some w' := by
        cases stage with
        | taken => cases hstep
        | ready state => cases hstep
        | called =>
          dsimp only at hstep
          rwa [heq] at hstep
        | skipped =>
          dsimp only at hstep
          rwa [heq] at hstep
        | failing error =>
          dsimp only at hstep
          rwa [heq] at hstep
      obtain rfl := Option.some.inj hw'
      have hremoved := hended.removed hplaced.sound hr
      obtain ⟨hlane, -, -, -, -, hnext, -⟩ := letGo_frame w.table r
      have hclosing : (w.table.letGo r).closing = w.table.closing := by
        unfold Table.letGo Table.mark
        dsimp only
        split_ifs
        · rfl
        · rfl
      refine h.congr ?_ ?_ ?_ fun f hdispatching hcloses => ?_
      · rw [endRun_table]
        exact hremoved.frames.trans (frames_congr hlane)
      · rw [endRun_table]
        exact hremoved.closing.trans hclosing
      · rw [endRun_table]
        exact (hremoved.next.trans hnext).ge
      · cases vad with
        | false => cases hdispatching
        | true =>
          refine absurd hcloses (h.not_dispatching (Or.inl ?_) hdispatching)
          rw [hplaced.vad, hrun]
          simp
    · cases hstep

theorem guarded_first : Guarded ({} : World σ) := by
  refine ⟨fun f hf => ?_, List.nodup_nil, fun id hid => ?_, fun f hserving => ?_⟩
  · cases hf
  · cases hid
  · cases hserving

theorem backed_first : Backed ({} : Table σ) := by
  refine ⟨fun b hb => ?_, fun r hr => ?_, lawful_nil, fun r hbusy => ?_, fun b e hmem => ?_,
    fun b e e' hmem => ?_⟩
  · cases hb
  · cases hr
  · obtain ⟨before, b, given, since, heq, -⟩ := hbusy
    exact absurd heq.symm (by simp)
  · cases hmem
  · cases hmem

/-- The invariants of a run. -/
theorem guarded_run (hrun : Run World.step Free ({} : World σ) w) :
    Placed w ∧ Guarded w ∧ Backed w.table := by
  refine hrun.invariant (I := fun w => Placed w ∧ Guarded w ∧ Backed w.table)
    ⟨placed_first, guarded_first, backed_first⟩ fun s a u h _ hstep => ?_
  obtain ⟨hplaced, hguarded, hbacked⟩ := h
  obtain ⟨hplaced', hchanges⟩ := hplaced.step hstep
  exact ⟨hplaced', hguarded.step hplaced hstep,
    (hbacked.changes hplaced.sound hplaced.calm hchanges).1⟩

/-! ## What a change adds -/

/-- **What a change adds**: only a job that runs is started, and only a new
submit joins. -/
structure Grows (t t' : Table σ) : Prop where
  next : t.next ≤ t'.next
  log : ∃ more, t'.log = t.log ++ more ∧ ∀ q b given, .started q b given ∈ more → t.Runs q
  jobs : ∀ q ∈ t'.jobs, q ∈ t.jobs ∨ t.next ≤ q
  waiting : ∀ q ∈ t'.waiting, q ∈ t.waiting ∨ t.next ≤ q

theorem Reaction.grows (hsound : Sound t []) (hreaction : Reaction t t') : Grows t t' := by
  obtain ⟨more, hlog, hmore⟩ := hreaction.log
  refine ⟨(hreaction.unmoved hsound).next, ⟨more, hlog, fun q b given hmem => ?_⟩, ?_, ?_⟩
  · exact absurd rfl ((hmore _ hmem).harmless.2.2.2.1 q b given)
  · intro q hq
    cases hreaction with
    | note he => exact Or.inl hq
    | @unread header answers hsubmit hanswers =>
      obtain ⟨held, heq⟩ := resetUnrun_frame (t.noted header answers) header
      rw [heq] at hq
      exact Or.inl hq
    | @refused _ header job error hmade hended =>
      have hremoved := hended.removed (hsound.made header job) (hmade.ids hsound)
      rw [hremoved.jobs] at hq
      exact Or.inl (List.mem_of_mem_erase hq)
    | @accepted _ header job hadmitted haccepted =>
      rw [haccepted.jobs, List.mem_append, List.mem_singleton] at hq
      exact hq.imp_right fun heq => heq.ge
    | acknowledged hr hc hack =>
      rw [hack.jobs] at hq
      exact Or.inl hq
    | @cancelled t₁ _ r error hr hack hended =>
      have hsound₁ := hack.sound hsound
      have hremoved := hended.removed hsound₁ fun q hq hid =>
        hsound₁.ids q hq r (by rw [hack.jobs]; exact hsound.job_of_waiting hr) hid
      rw [hremoved.jobs, hack.jobs] at hq
      exact Or.inl (List.mem_of_mem_erase hq)
    | @failed _ r error hr hended =>
      have hremoved := hended.removed hsound fun q hq hid =>
        hsound.ids q hq r (hsound.job_of_waiting hr) hid
      rw [hremoved.jobs] at hq
      exact Or.inl (List.mem_of_mem_erase hq)
    | pended hs hlive => exact Or.inl hq
    | released hs hlive => exact Or.inl hq
  · intro q hq
    cases hreaction with
    | note he => exact Or.inl hq
    | @unread header answers hsubmit hanswers =>
      obtain ⟨held, heq⟩ := resetUnrun_frame (t.noted header answers) header
      rw [heq] at hq
      exact Or.inl hq
    | @refused _ header job error hmade hended =>
      have hremoved := hended.removed (hsound.made header job) (hmade.ids hsound)
      exact Or.inl (hremoved.waiting q hq)
    | @accepted _ header job hadmitted haccepted =>
      unfold Table.waiting Table.refs at hq ⊢
      rw [haccepted.lane, haccepted.vadLane] at hq
      split_ifs at hq
      · simp only [List.mem_append, List.mem_singleton] at hq ⊢
        rcases hq with hq | hq | hq
        · exact Or.inl (Or.inl hq)
        · exact Or.inl (Or.inr hq)
        · exact Or.inr hq.ge
      · rw [List.filterMap_append] at hq
        simp only [List.mem_append] at hq ⊢
        rcases hq with (hq | hq) | hq
        · exact Or.inl (Or.inl hq)
        · have heq : q = t.next := by simpa [Work.ref?] using hq
          exact Or.inr heq.ge
        · exact Or.inl (Or.inr hq)
    | acknowledged hr hc hack =>
      rw [waiting_congr hack.lane hack.vadLane] at hq
      exact Or.inl hq
    | @cancelled t₁ _ r error hr hack hended =>
      have hsound₁ := hack.sound hsound
      have hremoved := hended.removed hsound₁ fun q hq hid =>
        hsound₁.ids q hq r (by rw [hack.jobs]; exact hsound.job_of_waiting hr) hid
      have hold := hremoved.waiting q hq
      rw [waiting_congr hack.lane hack.vadLane] at hold
      exact Or.inl hold
    | @failed _ r error hr hended =>
      have hremoved := hended.removed hsound fun q hq hid =>
        hsound.ids q hq r (hsound.job_of_waiting hr) hid
      exact Or.inl (hremoved.waiting q hq)
    | pended hs hlive => exact Or.inl hq
    | released hs hlive => exact Or.inl hq

theorem RunEnded.grows (hsound : Sound t []) (hr : t.Runs r) (hended : RunEnded t t' r) :
    Grows t t' := by
  obtain ⟨more, hlog, hmore⟩ := hended.extends
  have hremoved := hended.removed hsound hr
  obtain ⟨hlane, hvadLane, hjobs, -, -, hnext, -⟩ := letGo_frame t r
  refine ⟨(hremoved.next.trans hnext).ge, ⟨_, hlog, fun q b given hmem => ?_⟩, fun q hq => ?_,
    fun q hq => ?_⟩
  · rcases List.mem_cons.1 hmem with heq | hmem
    · cases heq
    · exact absurd rfl ((hmore _ hmem).2.2.2.1 q b given)
  · rw [hremoved.jobs, hjobs] at hq
    exact Or.inl (List.mem_of_mem_erase hq)
  · have hold := hremoved.waiting q hq
    rw [waiting_congr hlane hvadLane] at hold
    exact Or.inl hold

theorem Change.grows (hsound : Sound t []) (hchange : Change t t') : Grows t t' := by
  have hno : ∀ {e : Entry σ}, (∀ q b given, e ≠ .started q b given) →
      ∀ q b given, .started q b given ∈ [e] → t.Runs q :=
    fun hne q b given hmem => absurd (List.mem_singleton.1 hmem).symm (hne q b given)
  have hnil : ∀ q b given, .started q b given ∈ ([] : List (Entry σ)) → t.Runs q := by
    intro q b given hmem
    cases hmem
  cases hchange with
  | reacts hreaction => exact hreaction.grows hsound
  | closes =>
    exact ⟨Nat.le_succ _, ⟨_, rfl, hno (by simp)⟩, fun q hq => Or.inl hq, fun q hq => Or.inl hq⟩
  | numbered =>
    exact ⟨Nat.le_succ _, ⟨[], (List.append_nil _).symm, hnil⟩, fun q hq => Or.inl hq,
      fun q hq => Or.inl hq⟩
  | queued f =>
    refine ⟨le_rfl, ⟨[], (List.append_nil _).symm, hnil⟩, fun q hq => Or.inl hq, fun q hq => ?_⟩
    rw [waiting_frame] at hq
    exact Or.inl hq
  | @takenJob r rest hlane hidle =>
    refine ⟨le_rfl, ⟨[], (List.append_nil _).symm, hnil⟩, fun q hq => Or.inl hq,
      fun q hq => Or.inl ?_⟩
    unfold Table.waiting Table.refs at hq ⊢
    rw [hlane]
    rcases List.mem_append.1 hq with hq | hq
    · exact List.mem_append_left _ (List.mem_cons_of_mem _ hq)
    · exact List.mem_append_right _ hq
  | @takenFrame f rest hlane =>
    refine ⟨le_rfl, ⟨[], (List.append_nil _).symm, hnil⟩, fun q hq => Or.inl hq,
      fun q hq => Or.inl ?_⟩
    unfold Table.waiting Table.refs at hq ⊢
    rw [hlane]
    exact hq
  | @closed f rest hlane hnone hbackend =>
    refine ⟨le_rfl, ⟨_, rfl, hno (by simp)⟩, fun q hq => Or.inl hq, fun q hq => Or.inl ?_⟩
    unfold Table.waiting Table.refs at hq ⊢
    rw [hlane]
    exact hq
  | @takenVad r rest hlane hidle =>
    refine ⟨le_rfl, ⟨[], (List.append_nil _).symm, hnil⟩, fun q hq => Or.inl hq,
      fun q hq => Or.inl ?_⟩
    unfold Table.waiting Table.refs at hq ⊢
    rw [hlane]
    rcases List.mem_append.1 hq with hq | hq
    · exact List.mem_append_left _ hq
    · exact List.mem_append_right _ (List.mem_cons_of_mem _ hq)
  | opened runsVad classes =>
    obtain ⟨hlane, hvadLane, hjobs, -, -, -, -, -, hnext⟩ := open_frame t runsVad classes
    refine ⟨hnext ▸ Nat.le_succ _, ?_, fun q hq => Or.inl (by rwa [hjobs] at hq),
      fun q hq => Or.inl (by rwa [waiting_congr hlane hvadLane] at hq)⟩
    unfold Table.open Table.mark
    dsimp only
    split_ifs
    · exact ⟨_, rfl, hno (by simp)⟩
    · exact ⟨_, rfl, hno (by simp)⟩
  | @started r b given hr hb hgiven =>
    refine ⟨le_rfl, ⟨_, rfl, fun q b' given' hmem => ?_⟩, fun q hq => Or.inl hq,
      fun q hq => Or.inl hq⟩
    have heq := List.mem_singleton.1 hmem
    rw [Entry.started.injEq] at heq
    rw [heq.1]
    exact hr
  | @failedRun _ r error hr hended => exact RunEnded.grows hsound hr (Or.inl ⟨error, hended⟩)
  | @completedRun _ r rendered state hr hcompleted =>
    exact RunEnded.grows hsound hr (Or.inr ⟨rendered, state, hcompleted⟩)

/-! ## Jobs that never run -/

/-- The job was not started. -/
structure Idle (t : Table σ) (q : Ref) : Prop where
  old : q < t.next
  unstarted : ∀ b given, .started q b given ∉ t.log

theorem Idle.grows (h : Idle t q) (hq : ¬ t.Runs q) (hgrows : Grows t t') : Idle t' q := by
  obtain ⟨more, hlog, hmore⟩ := hgrows.log
  refine ⟨h.old.trans_le hgrows.next, fun b given hmem => ?_⟩
  rw [hlog, List.mem_append] at hmem
  rcases hmem with hmem | hmem
  · exact h.unstarted b given hmem
  · exact hq (hmore q b given hmem)

/-- A job that was started is of a submit that came, and no longer waits. -/
structure Unstarted (t : Table σ) : Prop where
  old : ∀ q b given, .started q b given ∈ t.log → q < t.next
  waiting : ∀ q ∈ t.waiting, ∀ b given, .started q b given ∉ t.log

theorem Unstarted.change (h : Unstarted t) (hsound : Sound t []) (hchange : Change t t') :
    Unstarted t' := by
  have hgrows := hchange.grows hsound
  obtain ⟨more, hlog, hmore⟩ := hgrows.log
  refine ⟨fun q b given hmem => ?_, fun q hq b given hmem => ?_⟩
  · rw [hlog, List.mem_append] at hmem
    rcases hmem with hmem | hmem
    · exact (h.old q b given hmem).trans_le hgrows.next
    · exact (hsound.old q (hsound.job_of_runs (hmore q b given hmem))).trans_le hgrows.next
  · rw [hlog, List.mem_append] at hmem
    rcases hgrows.waiting q hq with hold | hnew
    · rcases hmem with hmem | hmem
      · exact h.waiting q hold b given hmem
      · exact hsound.not_waiting_of_runs (hmore q b given hmem) hold
    · have hlt : q < t.next := by
        rcases hmem with hmem | hmem
        · exact h.old q b given hmem
        · exact hsound.old q (hsound.job_of_runs (hmore q b given hmem))
      exact absurd hnew (not_le.2 hlt)

/-- What a run keeps of the log and of a job that has left. -/
theorem Changes.keep (hsound : Sound t []) (hcalm : Calm t) (hchanges : Changes t t') :
    (∃ more, t'.log = t.log ++ more) ∧ (Unstarted t → Unstarted t') ∧
      ∀ q, q ∉ t.jobs → Idle t q → q ∉ t'.jobs ∧ Idle t' q := by
  have hall : Sound t' [] ∧ Calm t' ∧ (∃ more, t'.log = t.log ++ more) ∧
      (Unstarted t → Unstarted t') ∧
      ∀ q, q ∉ t.jobs → Idle t q → q ∉ t'.jobs ∧ Idle t' q := by
    induction hchanges with
    | refl => exact ⟨hsound, hcalm, ⟨[], (List.append_nil _).symm⟩, id, fun q hq hidle => ⟨hq, hidle⟩⟩
    | tail _ hchange ih =>
      obtain ⟨hsound', hcalm', ⟨more, hlog⟩, hunstarted, hgone⟩ := ih
      have hgrows := hchange.grows hsound'
      obtain ⟨more', hlog', -⟩ := hgrows.log
      obtain ⟨hsound'', hcalm''⟩ := hsound'.change hcalm' hchange
      refine ⟨hsound'', hcalm'', ⟨more ++ more', by rw [hlog', hlog, List.append_assoc]⟩,
        fun h => (hunstarted h).change hsound' hchange, fun q hq hidle => ?_⟩
      obtain ⟨hq', hidle'⟩ := hgone q hq hidle
      refine ⟨fun hmem => ?_, hidle'.grows (fun hruns => hq' (hsound'.job_of_runs hruns)) hgrows⟩
      rcases hgrows.jobs q hmem with hold | hnew
      · exact hq' hold
      · exact absurd hnew (not_le.2 hidle'.old)
  exact hall.2.2

theorem keep_run {first : World σ} (hfirst : Placed first)
    (hrun : Run World.step Free first w) :
    (∃ more, w.table.log = first.table.log ++ more) ∧
      (Unstarted first.table → Unstarted w.table) ∧
      ∀ q, q ∉ first.table.jobs → Idle first.table q → Idle w.table q := by
  have hall : Placed w ∧ Changes first.table w.table := by
    refine hrun.invariant (I := fun w => Placed w ∧ Changes first.table w.table)
      ⟨hfirst, Relation.ReflTransGen.refl⟩ fun s a u h _ hstep => ?_
    obtain ⟨hplaced, hchanges⟩ := h.1.step hstep
    exact ⟨hplaced, h.2.trans hchanges⟩
  obtain ⟨hlog, hunstarted, hgone⟩ := Changes.keep hfirst.sound hfirst.calm hall.2
  exact ⟨hlog, hunstarted, fun q hq hidle => (hgone q hq hidle).2⟩

theorem unstarted_run (hrun : Run World.step Free ({} : World σ) w) : Unstarted w.table := by
  refine (keep_run placed_first hrun).2.1 ⟨fun q b given hmem => ?_, fun q hq => ?_⟩
  · cases hmem
  · cases hq

/-- **No job runs on a backend that is being replaced, in any run**: no VAD
job waits or runs while a closing request is dispatched that has opened
nothing; the jobs that wait when one is queued fail and never run; a job
runs on the backend that was enabled last before its submit, and no closing
request is taken from then to the end of the run; and a backend that is
opened while a closing request waits gets no job. -/
theorem backends_guarded (hrun : Run World.step Free ({} : World σ) w) :
    (∀ f ∈ w.table.frames, f.id ∈ w.table.closing ↔ closes f.header = true) ∧
    (∀ f, w.serving = .dispatching f false → closes f.header = true →
      w.table.vadLane = [] ∧ w.table.vadRunning = none) ∧
    (∀ header payload t', w.table.offer header payload true = .ok (t', true) →
      ∀ q ∈ w.table.waiting,
        (∃ error, .sent (.event q (w.table.objects q).identity (.failed error)) ∈ t'.log) ∧
        ∀ w', Run World.step Free { w with table := t' } w' →
          ∀ b given, .started q b given ∉ w'.table.log) ∧
    (∀ before r b given since, w.table.log = before ++ .started r b given :: since →
      RanOn before r b ∧
      ∀ run id later, since = run ++ .closed id :: later → .finished r ∈ run) ∧
    ∀ f runsVad classes w', f ∈ w.table.frames → closes f.header = true →
      w.step (.open runsVad classes) = some w' → ∀ w'', Run World.step Free w' w'' →
        ∀ r given, .started r ⟨w.table.next, runsVad⟩ given ∉ w''.table.log := by
  obtain ⟨hplaced, hguarded, hbacked⟩ := guarded_run hrun
  refine ⟨fun f hf => (hguarded.frames f hf).1, fun f hserving hcloses => ?_,
    fun header payload t' hoffer q hq => ?_, fun before r b given since hlog => ?_,
    fun f runsVad classes w' hf hcloses hstep w'' hlater r given hmem => ?_⟩
  · obtain ⟨-, hwaiting, hvad⟩ := hguarded.dispatched f hserving hcloses
    unfold Table.waiting at hwaiting
    exact ⟨(List.append_eq_nil_iff.1 hwaiting).2, hvad⟩
  · obtain ⟨left, heq, hoffered⟩ := offer_spec hplaced.sound hplaced.calm header payload true
    have hplaced' := hplaced.offered hoffered
    rw [hoffer] at heq
    obtain rfl := Except.ok.inj heq
    cases hoffered with
    | queued hclosing => cases hclosing
    | @closes t₁ hclosing hfailed =>
      refine ⟨hfailed.failed q hq, fun w' hlater b given => ?_⟩
      have hjob : q ∉ t₁.jobs := by
        intro hmem
        have hplace := mem_placed_iff.1 ((hplaced'.sound.mem_placed q).2 hmem)
        dsimp only at hplace
        rw [waiting_frame, hfailed.waiting, hfailed.running, hfailed.vadRunning] at hplace
        rcases hplace with hwaits | hruns | hruns | hloose
        · exact hwaits.2 hq
        · exact hplaced.sound.not_running_of_waiting hq hruns
        · exact hplaced.sound.not_vadRunning_of_waiting hq hruns
        · cases hloose
      obtain ⟨more, hlog, hmore⟩ := hfailed.reactions.log
      refine ((keep_run hplaced' hlater).2.2 q hjob ⟨?_, fun b given hmem => ?_⟩).unstarted b given
      · change q < t₁.next
        rw [hfailed.next]
        exact (hplaced.sound.old q (hplaced.sound.job_of_waiting hq)).trans (Nat.lt_succ_self _)
      · change _ ∈ t₁.log at hmem
        rw [hlog, List.mem_append] at hmem
        rcases hmem with hmem | hmem
        · change _ ∈ w.table.log ++ [.closes w.table.next] at hmem
          simp only [List.mem_append, List.mem_singleton, reduceCtorEq, or_false] at hmem
          exact (unstarted_run hrun).waiting q hq b given hmem
        · exact absurd rfl ((hmore _ hmem).harmless.2.2.2.1 q b given)
  · refine ⟨hbacked.lawful before (.started r b given) since hlog, fun run id later hsince => ?_⟩
    have hclosed := hbacked.lawful (before ++ .started r b given :: run) (.closed id) later
      (by rw [hlog, hsince]; simp)
    by_contra hfinished
    exact hclosed r ⟨before, b, given, run, rfl, hfinished⟩
  · have hclosing : w.table.closing ≠ [] := List.ne_nil_of_mem ((hguarded.frames f hf).1.2 hcloses)
    have hopened : .opened ⟨w.table.next, runsVad⟩ false ∈ w'.table.log := by
      simp only [World.step] at hstep
      split at hstep
      · split at hstep
        · obtain rfl := Option.some.inj hstep
          unfold Table.open Table.mark
          dsimp only
          rw [if_neg (by rw [List.isEmpty_iff]; exact hclosing)]
          simp
        · cases hstep
      · cases hstep
    have hplaced' := (hplaced.step hstep).1
    obtain ⟨more, hmore⟩ := (keep_run hplaced' hlater).1
    obtain ⟨-, -, hbacked''⟩ := guarded_run ((hrun.tail trivial hstep).trans hlater)
    obtain ⟨before, since, hlog⟩ := List.append_of_mem hmem
    obtain ⟨past, between, header, rest, hpast, -⟩ := hbacked''.lawful before _ since hlog
    have htrue : .opened ⟨w.table.next, runsVad⟩ true ∈ w''.table.log := by
      rw [hlog, hpast]
      simp
    have hfalse : .opened ⟨w.table.next, runsVad⟩ false ∈ w''.table.log := by
      rw [hmore]
      exact List.mem_append_left _ hopened
    cases hbacked''.once _ _ _ htrue hfalse

/-! ## A closing request that finds no place -/

/-- A unary request that neither loads nor unloads. -/
def inferHeader : Header :=
  [("schema_version", .str "0.1"), ("message_id", .str "3"), ("kind", .str "infer")]

/-- A VAD job waits behind as many unary requests as may wait. -/
def fullActs : List (Act ℕ) :=
  loadActs ++ .handle (vadHeader 7 1) [0, 0, 0, 0] .permitted ::
    List.replicate unaryQueueDepth (.offer inferHeader [])

def fullWorld : World ℕ := (exec World.step {} fullActs).getD {}

/-- The sidecar once the job was called. -/
def calledWorld : World ℕ :=
  (exec World.step fullWorld [.takeVad, .readState true, .call true]).getD {}

/-- The log says that a job was started. -/
def startedIn (log : List (Entry σ)) (q : Ref) : Bool :=
  log.any fun
    | .started r _ _ => r = q
    | _ => false

theorem startedIn_iff : startedIn log q = true ↔ ∃ b given, .started q b given ∈ log := by
  unfold startedIn
  rw [List.any_eq_true]
  constructor
  · rintro ⟨e, he, heq⟩
    split at heq
    · rename_i r b given
      rw [decide_eq_true_eq] at heq
      rw [heq] at he
      exact ⟨b, given, he⟩
    · cases heq
  · rintro ⟨b, given, he⟩
    exact ⟨_, he, by simp⟩

theorem full_run : Run World.step Free ({} : World ℕ) fullWorld :=
  Run.of_exec (exec_of_isSome (by decide +kernel))

theorem called_run : Run World.step Free fullWorld calledWorld :=
  Run.of_exec (exec_of_isSome (by decide +kernel))

/-- The job that is called runs on the backend it was submitted to. -/
theorem backends_guarded_called : ∃ before b given since,
    calledWorld.table.log = before ++ .started 2 b given :: since ∧ RanOn before 2 b := by
  obtain ⟨b, given, hmem⟩ := startedIn_iff.1
    (show startedIn calledWorld.table.log 2 = true by decide +kernel)
  obtain ⟨before, since, hlog⟩ := List.append_of_mem hmem
  exact ⟨before, b, given, since, hlog,
    ((backends_guarded (full_run.trans called_run)).2.2.2.1 before 2 b given since hlog).1⟩

/-- **A closing request that is not queued fails no job**: the job that
waits where it is offered is run. -/
theorem unqueued_close_fails_no_job :
    ¬ ∀ (w : World ℕ) (header : Header) (payload : List UInt8) (left : Table ℕ × Bool),
      Run World.step Free {} w → closes header = true →
      w.table.offer header payload true = .ok left → ∀ q ∈ w.table.waiting,
        ∀ w', Run World.step Free { w with table := left.1 } w' →
          ∀ b given, .started q b given ∉ w'.table.log := by
  intro h
  obtain ⟨b, given, hmem⟩ := startedIn_iff.1
    (show startedIn calledWorld.table.log 2 = true by decide +kernel)
  exact h fullWorld loadHeader [] (fullWorld.table, false) full_run (by decide +kernel) rfl 2
    (by decide +kernel) calledWorld called_run b given hmem

end Sidecar

end Tensorplate
