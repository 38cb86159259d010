import Mathlib.Logic.Relation
import Tensorplate.Lib.Grouped
import Tensorplate.Sidecar.Model.JobTable

/-!
# What the job messages are for

The ledger of the jobs that are live, of the sessions being released and
of the messages written, and the ways in which it changes. Each job's
messages are one stream that is whole once the job is gone, and no message
of its identifier comes in between. Each release of a session that becomes
pending is answered once, behind the last message of its jobs.
-/

namespace Tensorplate

namespace Sidecar

open Lib

/-- A message, or the mark of a session release that became pending. -/
inductive Message
  | sent (message : Sent)
  | pending (session : Session)

/-- The messages of a job, in order. -/
def events (ms : List Message) (r : Ref) : List (JobIdentity × JobEvent) :=
  ms.filterMap fun
    | .sent (.event q identity event) => if q = r then some (identity, event) else none
    | _ => none

/-- The jobs that the messages of an identifier are of, in order. -/
def speakers (ms : List Message) (jobId : ℕ) : List Ref :=
  ms.filterMap fun
    | .sent (.event q identity _) => if identity.jobId = jobId then some q else none
    | _ => none

/-- The releases of a session that became pending, and their answers. -/
def releases (ms : List Message) (session : Session) : List Bool :=
  ms.filterMap fun
    | .pending s => if s = session then some true else none
    | .sent (.sessionReleased s) => if s = session then some false else none
    | _ => none

/-- The messages of a job that it writes. -/
def said (r : Ref) (identity : JobIdentity) (es : List JobEvent) : List Message :=
  es.map fun event => .sent (.event r identity event)

variable {ms ns : List Message} {r q : Ref} {i : JobIdentity} {es : List JobEvent} {s : Session}

@[simp] theorem events_append : events (ms ++ ns) r = events ms r ++ events ns r :=
  List.filterMap_append

@[simp] theorem speakers_append {j : ℕ} :
    speakers (ms ++ ns) j = speakers ms j ++ speakers ns j :=
  List.filterMap_append

@[simp] theorem releases_append : releases (ms ++ ns) s = releases ms s ++ releases ns s :=
  List.filterMap_append

@[simp] theorem events_said : events (said r i es) q =
    if r = q then es.map fun event => (i, event) else [] := by
  unfold events said
  rw [List.filterMap_map]
  by_cases h : r = q
  · simp [h]
  · simp [h]

@[simp] theorem speakers_said {j : ℕ} : speakers (said r i es) j =
    if i.jobId = j then List.replicate es.length r else [] := by
  unfold speakers said
  rw [List.filterMap_map]
  by_cases h : i.jobId = j
  · simp [h, List.map_const']
  · simp [h]

@[simp] theorem releases_said : releases (said r i es) s = [] := by
  unfold releases said
  rw [List.filterMap_map]
  simp

@[simp] theorem events_note {m : Message} (h : ∀ q i e, m ≠ .sent (.event q i e)) :
    events [m] r = [] := by
  unfold events
  rcases m with (_ | _ | _) | _
  · exact absurd rfl (h _ _ _)
  · rfl
  · rfl
  · rfl

@[simp] theorem speakers_note {m : Message} {j : ℕ} (h : ∀ q i e, m ≠ .sent (.event q i e)) :
    speakers [m] j = [] := by
  unfold speakers
  rcases m with (_ | _ | _) | _
  · exact absurd rfl (h _ _ _)
  · rfl
  · rfl
  · rfl

theorem mem_speakers {j : ℕ} (h : r ∈ speakers ms j) : events ms r ≠ [] := by
  unfold speakers at h
  obtain ⟨m, hm, heq⟩ := List.mem_filterMap.1 h
  split at heq
  · rename_i q identity event
    split_ifs at heq
    obtain rfl := Option.some.inj heq
    have hmem : (identity, event) ∈ events ms q :=
      List.mem_filterMap.2 ⟨_, hm, if_pos rfl⟩
    exact List.ne_nil_of_mem hmem
  · cases heq

/-! ## Streams -/

/-- An event that ends a job. -/
def Last : JobEvent → Prop
  | .completed _ | .failed _ => True
  | _ => False

/-- The stream of a job that is live. -/
def running (i : JobIdentity) (cancelled : Bool) : List (JobIdentity × JobEvent) :=
  (i, .accepted) :: if cancelled then [(i, .cancelAcknowledged)] else []

/-- **A whole stream**: a job that was not admitted, or one that was. -/
inductive Whole (i : JobIdentity) : List (JobIdentity × JobEvent) → Prop
  | refused (error : ErrorObject) : Whole i [(i, .failed error), (i, .released)]
  | ended (cancelled : Bool) (last : JobEvent) (h : Last last) :
    Whole i (running i cancelled ++ [(i, last), (i, .released)])

/-! ## The ledger -/

/-- The jobs that are live, with their identity and whether they were
cancelled, and what was written. -/
structure Ledger where
  live : Ref → Option (JobIdentity × Bool)
  releasing : Session → Bool
  next : ℕ
  messages : List Message

namespace Ledger

/-- A job of the session is live. -/
def Holds (live : Ref → Option (JobIdentity × Bool)) (session : Session) : Prop :=
  ∃ r i c, live r = some (i, c) ∧ i.session = session

/-- No live job has the identifier. -/
def New (l : Ledger) (jobId : ℕ) : Prop := ∀ r i c, l.live r = some (i, c) → i.jobId ≠ jobId

/-- **One change of the ledger.** -/
inductive Step (l : Ledger) : Ledger → Prop
  | skip (n : ℕ) (h : l.next ≤ n) : Step l { l with next := n }
  | answer (messageId : Option Value) (error : ErrorObject) :
    Step l { l with messages := l.messages ++ [.sent (.errorEvent messageId error)] }
  | refuse (i : JobIdentity) (error : ErrorObject) (h : l.New i.jobId) :
    Step l { l with
      next := l.next + 1
      messages := l.messages ++ said l.next i [.failed error, .released] }
  | accept (i : JobIdentity) (h : l.New i.jobId) :
    Step l { l with
      live := Function.update l.live l.next (some (i, false))
      next := l.next + 1
      messages := l.messages ++ said l.next i [.accepted] }
  | acknowledge (r : Ref) (i : JobIdentity) (h : l.live r = some (i, false)) :
    Step l { l with
      live := Function.update l.live r (some (i, true))
      messages := l.messages ++ said r i [.cancelAcknowledged] }
  | finish (r : Ref) (i : JobIdentity) (c : Bool) (last : JobEvent) (hlast : Last last)
      (h : l.live r = some (i, c))
      (hs : l.releasing i.session = true → Holds (Function.update l.live r none) i.session) :
    Step l { l with
      live := Function.update l.live r none
      messages := l.messages ++ said r i [last, .released] }
  | settle (r : Ref) (i : JobIdentity) (c : Bool) (last : JobEvent) (hlast : Last last)
      (h : l.live r = some (i, c)) (hr : l.releasing i.session = true)
      (hs : ¬ Holds (Function.update l.live r none) i.session) :
    Step l { l with
      live := Function.update l.live r none
      releasing := Function.update l.releasing i.session false
      messages := l.messages ++ said r i [last, .released] ++
        [.sent (.sessionReleased i.session)] }
  | pend (s : Session) (h : l.releasing s = false) (hs : Holds l.live s) :
    Step l { l with
      releasing := Function.update l.releasing s true
      messages := l.messages ++ [.pending s] }
  | release (s : Session) (h : l.releasing s = false) (hs : ¬ Holds l.live s) :
    Step l { l with messages := l.messages ++ [.pending s] ++ [.sent (.sessionReleased s)] }

/-! ## The streams -/

/-- **The messages of each job are a stream of its own.** -/
structure Streams (l : Ledger) : Prop where
  live : ∀ r i c, l.live r = some (i, c) → events l.messages r = running i c
  gone : ∀ r, l.live r = none → events l.messages r = [] ∨ ∃ i, Whole i (events l.messages r)
  old : ∀ r, l.next ≤ r → l.live r = none ∧ events l.messages r = []
  ids : ∀ r q i j c d, l.live r = some (i, c) → l.live q = some (j, d) → i.jobId = j.jobId → r = q
  grouped : ∀ jobId, Grouped (speakers l.messages jobId)
  ends : ∀ r i c, l.live r = some (i, c) → EndsWith (speakers l.messages i.jobId) r

theorem grouped_replicate {l : List Ref} (hl : Grouped l) (h : EndsWith l r) (n : ℕ) :
    Grouped (l ++ List.replicate n r) ∧ EndsWith (l ++ List.replicate n r) r := by
  induction n with
  | zero => simpa using ⟨hl, h⟩
  | succ n ih =>
    rw [List.replicate_succ', ← List.append_assoc]
    exact ⟨ih.1.concat ih.2, ih.2.concat⟩

section Says

variable {l : Ledger}

/-- What stays out of the streams. -/
def Silent (ns : List Message) : Prop :=
  (∀ r, events ns r = []) ∧ ∀ j, speakers ns j = []

theorem silent_nil : Silent [] := ⟨fun _ => rfl, fun _ => rfl⟩

theorem silent_singleton {m : Message} (h : ∀ q i e, m ≠ .sent (.event q i e)) : Silent [m] :=
  ⟨fun _ => events_note h, fun _ => speakers_note h⟩

theorem Silent.append (hm : Silent ms) (hn : Silent ns) : Silent (ms ++ ns) :=
  ⟨fun r => by simp [hm.1, hn.1], fun j => by simp [hm.2, hn.2]⟩

/-- **A job writes its next messages**: it is fresh, or its own were the
last of its identifier. -/
theorem Streams.say (h : Streams l) {l' : Ledger} (hmessages : l'.messages =
      l.messages ++ said r i es ++ ns) (hsilent : Silent ns)
    (hothers : ∀ q, q ≠ r → l'.live q = l.live q)
    (hends : EndsWith (speakers l.messages i.jobId) r)
    (hids : ∀ q j c, q ≠ r → l.live q = some (j, c) → j.jobId ≠ i.jobId)
    (hnext : l.next ≤ l'.next) (hr : r < l'.next)
    (hlive : ∀ j c, l'.live r = some (j, c) → j = i ∧
      events l.messages r ++ es.map (fun event => (i, event)) = running i c)
    (hgone : l'.live r = none →
      Whole i (events l.messages r ++ es.map fun event => (i, event))) : Streams l' := by
  have hself : events l'.messages r =
      events l.messages r ++ es.map fun event => (i, event) := by
    rw [hmessages]
    simp [hsilent.1]
  have hother : ∀ q, q ≠ r → events l'.messages q = events l.messages q := by
    intro q hq
    rw [hmessages]
    simp [hsilent.1, Ne.symm hq]
  have hspeak : ∀ j, speakers l'.messages j = speakers l.messages j ++
      if i.jobId = j then List.replicate es.length r else [] := by
    intro j
    rw [hmessages]
    simp [hsilent.2]
  refine ⟨fun q j c hq => ?_, fun q hq => ?_, fun q hq => ?_, fun q q' j j' c d hq hq' hid => ?_,
    fun j => ?_, fun q j c hq => ?_⟩
  · by_cases hqr : q = r
    · subst hqr
      obtain ⟨rfl, hrunning⟩ := hlive j c hq
      rw [hself, hrunning]
    · rw [hother q hqr]
      rw [hothers q hqr] at hq
      exact h.live q j c hq
  · by_cases hqr : q = r
    · subst hqr
      right
      rw [hself]
      exact ⟨i, hgone hq⟩
    · rw [hother q hqr]
      rw [hothers q hqr] at hq
      exact h.gone q hq
  · have hqr : q ≠ r := by
      rintro rfl
      exact absurd hr (not_lt.2 hq)
    rw [hother q hqr, hothers q hqr]
    exact h.old q (hnext.trans hq)
  · by_cases hqr : q = r
    · by_cases hqr' : q' = r
      · rw [hqr, hqr']
      · rw [hothers q' hqr'] at hq'
        rw [hqr] at hq
        have hj := (hlive j c hq).1
        exact absurd (by rw [← hid, hj]) (hids q' j' d hqr' hq')
    · rw [hothers q hqr] at hq
      by_cases hqr' : q' = r
      · rw [hqr'] at hq'
        have hj := (hlive j' d hq').1
        exact absurd (by rw [hid, hj]) (hids q j c hqr hq)
      · rw [hothers q' hqr'] at hq'
        exact h.ids q q' j j' c d hq hq' hid
  · rw [hspeak]
    by_cases hj : i.jobId = j
    · subst hj
      rw [if_pos rfl]
      exact (grouped_replicate (h.grouped _) hends _).1
    · rw [if_neg hj, List.append_nil]
      exact h.grouped j
  · rw [hspeak]
    by_cases hqr : q = r
    · subst hqr
      obtain ⟨rfl, -⟩ := hlive j c hq
      rw [if_pos rfl]
      exact (grouped_replicate (h.grouped _) hends _).2
    · rw [hothers q hqr] at hq
      rw [if_neg (Ne.symm (hids q j c hqr hq)), List.append_nil]
      exact h.ends q j c hq

/-- Nothing of a stream is written. -/
theorem Streams.silent (h : Streams l) {l' : Ledger} (hmessages : l'.messages = l.messages ++ ns)
    (hsilent : Silent ns) (hlive : l'.live = l.live) (hnext : l.next ≤ l'.next) : Streams l' := by
  have hevents : ∀ q, events l'.messages q = events l.messages q := by
    intro q
    rw [hmessages]
    simp [hsilent.1]
  have hspeak : ∀ j, speakers l'.messages j = speakers l.messages j := by
    intro j
    rw [hmessages]
    simp [hsilent.2]
  refine ⟨fun q => ?_, fun q => ?_, fun q hq => ?_, ?_, fun j => ?_, fun q i c hq => ?_⟩
  · rw [hlive, hevents]
    exact h.live q
  · rw [hlive, hevents]
    exact h.gone q
  · rw [hlive, hevents]
    exact h.old q (hnext.trans hq)
  · rw [hlive]
    exact h.ids
  · rw [hspeak]
    exact h.grouped j
  · rw [hspeak]
    rw [hlive] at hq
    exact h.ends q i c hq

theorem Streams.fresh (h : Streams l) (j : ℕ) : EndsWith (speakers l.messages j) l.next := by
  apply endsWith_of_notMem
  intro hmem
  exact mem_speakers hmem (h.old l.next le_rfl).2

theorem Streams.lt_next (h : Streams l) {c : Bool} (hr : l.live r = some (i, c)) : r < l.next := by
  by_contra hle
  rw [(h.old r (not_lt.1 hle)).1] at hr
  cases hr

theorem Streams.apart (h : Streams l) {c : Bool} (hr : l.live r = some (i, c)) (q : Ref)
    (j : JobIdentity) (d : Bool) (hq : q ≠ r) (hj : l.live q = some (j, d)) : j.jobId ≠ i.jobId :=
  fun hid => hq (h.ids q r j i d c hj hr hid)

end Says

/-- **Every change keeps the streams.** -/
theorem Streams.step {l l' : Ledger} (h : Streams l) (hstep : Step l l') : Streams l' := by
  cases hstep with
  | skip n hn => exact h.silent (List.append_nil _).symm silent_nil rfl hn
  | answer messageId error =>
    exact h.silent rfl (silent_singleton (by simp)) rfl le_rfl
  | refuse i error hnew =>
    have hfresh := h.old l.next le_rfl
    refine h.say (List.append_nil _).symm silent_nil (fun q _ => rfl) (h.fresh _)
      (fun q j c _ hq => hnew q j c hq) (Nat.le_succ _) (Nat.lt_succ_self _) (fun j c hl => ?_)
      fun _ => ?_
    · have hnone : l.live l.next = some (j, c) := hl
      rw [hfresh.1] at hnone
      cases hnone
    · rw [hfresh.2]
      exact Whole.refused error
  | accept i hnew =>
    have hfresh := h.old l.next le_rfl
    refine h.say (List.append_nil _).symm silent_nil (fun q hq => Function.update_of_ne hq _ _)
      (h.fresh _) (fun q j c _ hq => hnew q j c hq) (Nat.le_succ _) (Nat.lt_succ_self _)
      (fun j c hl => ?_) fun hl => ?_
    · dsimp only at hl
      rw [Function.update_self, Option.some.injEq, Prod.mk.injEq] at hl
      obtain ⟨rfl, rfl⟩ := hl
      rw [hfresh.2]
      exact ⟨rfl, rfl⟩
    · dsimp only at hl
      rw [Function.update_self] at hl
      cases hl
  | acknowledge r i hr =>
    refine h.say (List.append_nil _).symm silent_nil (fun q hq => Function.update_of_ne hq _ _)
      (h.ends r i false hr) (h.apart hr) le_rfl (h.lt_next hr) (fun j c hl => ?_) fun hl => ?_
    · dsimp only at hl
      rw [Function.update_self, Option.some.injEq, Prod.mk.injEq] at hl
      obtain ⟨rfl, rfl⟩ := hl
      rw [h.live r i false hr]
      exact ⟨rfl, rfl⟩
    · dsimp only at hl
      rw [Function.update_self] at hl
      cases hl
  | finish r i c last hlast hr hs =>
    refine h.say (List.append_nil _).symm silent_nil (fun q hq => Function.update_of_ne hq _ _)
      (h.ends r i c hr) (h.apart hr) le_rfl (h.lt_next hr) (fun j c hl => ?_) fun hl => ?_
    · dsimp only at hl
      rw [Function.update_self] at hl
      cases hl
    · rw [h.live r i c hr]
      exact Whole.ended c last hlast
  | settle r i c last hlast hr hrel hs =>
    refine h.say rfl (silent_singleton (by simp)) (fun q hq => Function.update_of_ne hq _ _)
      (h.ends r i c hr) (h.apart hr) le_rfl (h.lt_next hr) (fun j c hl => ?_) fun hl => ?_
    · dsimp only at hl
      rw [Function.update_self] at hl
      cases hl
    · rw [h.live r i c hr]
      exact Whole.ended c last hlast
  | pend s hr hs => exact h.silent rfl (silent_singleton (by simp)) rfl le_rfl
  | release s hr hs =>
    exact h.silent (List.append_assoc _ _ _)
      ((silent_singleton (by simp)).append (silent_singleton (by simp))) rfl le_rfl

/-! ## The answers -/

/-- Where a session is said to be released, its jobs have sent all of their
messages. -/
def Settled (ms : List Message) : Prop :=
  ∀ a s b, ms = a ++ .sent (.sessionReleased s) :: b →
    ∀ r j e, (j, e) ∈ events a r → j.session = s → ∃ i, Whole i (events a r)

theorem Settled.append (h : Settled ms) (hns : ∀ s, Message.sent (.sessionReleased s) ∉ ns) :
    Settled (ms ++ ns) := by
  intro a s b heq
  rcases List.append_eq_append_iff.1 heq with ⟨as, rfl, hns'⟩ | ⟨bs, rfl, hcons⟩
  · exact absurd (by rw [hns']; simp) (hns s)
  · rcases bs with _ | ⟨m, bs⟩
    · rw [List.nil_append] at hcons
      exact absurd (by rw [← hcons]; simp) (hns s)
    · rw [List.cons_append, List.cons.injEq] at hcons
      obtain ⟨rfl, rfl⟩ := hcons
      exact h a s bs rfl

theorem Settled.concat (h : Settled ms)
    (hs : ∀ r j e, (j, e) ∈ events ms r → j.session = s → ∃ i, Whole i (events ms r)) :
    Settled (ms ++ [.sent (.sessionReleased s)]) := by
  intro a s' b heq
  rcases List.eq_nil_or_concat b with rfl | ⟨b', last, rfl⟩
  · obtain ⟨rfl, hlast⟩ := List.append_inj' heq rfl
    rw [List.singleton_inj, Message.sent.injEq, Sent.sessionReleased.injEq] at hlast
    rw [← hlast]
    exact hs
  · rw [List.concat_eq_append, ← List.cons_append, ← List.append_assoc] at heq
    obtain ⟨hms, -⟩ := List.append_inj' heq rfl
    exact h a s' b' hms

/-- The release that is still to be answered. -/
def unanswered (pending : Bool) : List Bool := if pending then [true] else []

/-- **Each release is answered once**, behind the messages of its jobs, and
one that is pending waits for a job of its session. -/
structure Answers (l : Ledger) : Prop where
  answered : ∀ s, ∃ n, releases l.messages s =
    (List.replicate n [true, false]).flatten ++ unanswered (l.releasing s)
  attended : ∀ s, l.releasing s = true → Holds l.live s
  settled : Settled l.messages

theorem said_settles {s : Session} : Message.sent (.sessionReleased s) ∉ said r i es := by
  unfold said
  simp

variable {l : Ledger}

/-- The jobs of a session with no live job have sent all of their messages. -/
theorem Streams.whole (h : Streams l) (hs : ¬ Holds l.live s) (r : Ref) (j : JobIdentity)
    (e : JobEvent) (hmem : (j, e) ∈ events l.messages r) (hj : j.session = s) :
    ∃ i, Whole i (events l.messages r) := by
  rcases hlive : l.live r with _ | ⟨i, c⟩
  · rcases h.gone r hlive with hnil | hwhole
    · rw [hnil] at hmem
      cases hmem
    · exact hwhole
  · rw [h.live r i c hlive] at hmem
    have hij : j = i := by
      unfold running at hmem
      split_ifs at hmem
      · simp only [List.mem_cons, List.not_mem_nil, Prod.mk.injEq, or_false] at hmem
        rcases hmem with ⟨rfl, -⟩ | ⟨rfl, -⟩
        · rfl
        · rfl
      · simp only [List.mem_cons, List.not_mem_nil, Prod.mk.injEq, or_false] at hmem
        exact hmem.1
    exact absurd ⟨r, i, c, hlive, by rw [← hij, hj]⟩ hs

theorem Holds.update {live : Ref → Option (JobIdentity × Bool)} {x : JobIdentity × Bool}
    (h : Holds live s) (hx : ∀ c, live r = some (i, c) → i.session = s → x.1.session = s)
    (hr : ∀ j c, live r = some (j, c) → j = i) : Holds (Function.update live r (some x)) s := by
  obtain ⟨q, j, c, hq, hj⟩ := h
  by_cases hqr : q = r
  · subst hqr
    obtain rfl := hr j c hq
    exact ⟨q, x.1, x.2, Function.update_self _ _ _, hx c hq hj⟩
  · exact ⟨q, j, c, (Function.update_of_ne hqr _ _).trans hq, hj⟩

/-- **Every change keeps the answers.** -/
theorem Answers.step {l' : Ledger} (h : Answers l) (hstreams : Streams l) (hstep : Step l l') :
    Answers l' := by
  cases hstep with
  | skip n hn => exact ⟨h.answered, h.attended, h.settled⟩
  | answer messageId error =>
    refine ⟨fun s => ?_, h.attended, h.settled.append (by simp)⟩
    obtain ⟨n, hn⟩ := h.answered s
    exact ⟨n, by rw [releases_append, hn]; simp [releases]⟩
  | refuse i error hnew =>
    refine ⟨fun s => ?_, h.attended, h.settled.append fun s => said_settles⟩
    obtain ⟨n, hn⟩ := h.answered s
    exact ⟨n, by rw [releases_append, hn, releases_said, List.append_nil]⟩
  | accept i hnew =>
    refine ⟨fun s => ?_, fun s hs => ?_, h.settled.append fun s => said_settles⟩
    · obtain ⟨n, hn⟩ := h.answered s
      exact ⟨n, by rw [releases_append, hn, releases_said, List.append_nil]⟩
    · have hnone := (hstreams.old l.next le_rfl).1
      refine (h.attended s hs).update (i := i) (fun c hc => ?_) fun j c hc => ?_
      · rw [hnone] at hc
        cases hc
      · rw [hnone] at hc
        cases hc
  | acknowledge r i hr =>
    refine ⟨fun s => ?_, fun s hs => ?_, h.settled.append fun s => said_settles⟩
    · obtain ⟨n, hn⟩ := h.answered s
      exact ⟨n, by rw [releases_append, hn, releases_said, List.append_nil]⟩
    · refine (h.attended s hs).update (i := i) (fun c _ hi => hi) fun j c hc => ?_
      rw [hr, Option.some.injEq, Prod.mk.injEq] at hc
      exact hc.1.symm
  | finish r i c last hlast hr hsettles =>
    refine ⟨fun s => ?_, fun s hs => ?_, h.settled.append fun s => said_settles⟩
    · obtain ⟨n, hn⟩ := h.answered s
      exact ⟨n, by rw [releases_append, hn, releases_said, List.append_nil]⟩
    · by_cases his : i.session = s
      · subst his
        exact hsettles hs
      · obtain ⟨q, j, d, hq, hj⟩ := h.attended s hs
        have hqr : q ≠ r := by
          rintro rfl
          rw [hr, Option.some.injEq, Prod.mk.injEq] at hq
          exact his (by rw [hq.1, hj])
        exact ⟨q, j, d, (Function.update_of_ne hqr _ _).trans hq, hj⟩
  | settle r i c last hlast hr hrel hsettles =>
    have hafter : Streams { l with
        live := Function.update l.live r none
        messages := l.messages ++ said r i [last, .released] } := by
      refine hstreams.say (List.append_nil _).symm silent_nil
        (fun q hq => Function.update_of_ne hq _ _) (hstreams.ends r i c hr) (hstreams.apart hr)
        le_rfl (hstreams.lt_next hr) (fun j c hl => ?_) fun _ => ?_
      · dsimp only at hl
        rw [Function.update_self] at hl
        cases hl
      · rw [hstreams.live r i c hr]
        exact Whole.ended c last hlast
    refine ⟨fun s => ?_, fun s hs => ?_,
      (h.settled.append fun s => said_settles).concat (hafter.whole hsettles)⟩
    · obtain ⟨n, hn⟩ := h.answered s
      dsimp only
      rw [releases_append, releases_append, hn, releases_said, List.append_nil]
      by_cases his : i.session = s
      · subst his
        refine ⟨n + 1, ?_⟩
        rw [hrel, Function.update_self, List.replicate_succ', List.flatten_append]
        simp [releases, unanswered]
      · refine ⟨n, ?_⟩
        rw [Function.update_of_ne (Ne.symm his)]
        simp [releases, his]
    · dsimp only at hs
      have his : i.session ≠ s := by
        rintro rfl
        rw [Function.update_self] at hs
        cases hs
      rw [Function.update_of_ne (Ne.symm his)] at hs
      obtain ⟨q, j, d, hq, hj⟩ := h.attended s hs
      have hqr : q ≠ r := by
        rintro rfl
        rw [hr, Option.some.injEq, Prod.mk.injEq] at hq
        exact his (by rw [hq.1, hj])
      exact ⟨q, j, d, (Function.update_of_ne hqr _ _).trans hq, hj⟩
  | pend s' hr hheld =>
    refine ⟨fun s => ?_, fun s hs => ?_, h.settled.append (by simp)⟩
    · obtain ⟨n, hn⟩ := h.answered s
      refine ⟨n, ?_⟩
      dsimp only
      rw [releases_append, hn]
      by_cases hss : s = s'
      · subst hss
        rw [hr, Function.update_self]
        simp [releases, unanswered]
      · rw [Function.update_of_ne hss]
        simp [releases, Ne.symm hss]
    · by_cases hss : s = s'
      · rw [hss]
        exact hheld
      · dsimp only at hs
        rw [Function.update_of_ne hss] at hs
        exact h.attended s hs
  | release s' hr hheld =>
    refine ⟨fun s => ?_, h.attended, (h.settled.append (by simp)).concat ?_⟩
    · obtain ⟨n, hn⟩ := h.answered s
      rw [releases_append, releases_append, hn]
      by_cases hss : s = s'
      · subst hss
        refine ⟨n + 1, ?_⟩
        rw [hr, List.replicate_succ', List.flatten_append]
        simp [releases, unanswered]
      · refine ⟨n, ?_⟩
        simp [releases, Ne.symm hss]
    · intro r j e hmem hj
      rw [events_append, events_note (by simp), List.append_nil] at hmem ⊢
      exact hstreams.whole hheld r j e hmem hj

/-- The two together. -/
def Kept (l : Ledger) : Prop := Streams l ∧ Answers l

/-- **Any number of changes keeps both.** -/
theorem Kept.steps {l l' : Ledger} (h : Kept l) (hsteps : Relation.ReflTransGen Step l l') :
    Kept l' := by
  induction hsteps with
  | refl => exact h
  | tail _ hstep ih => exact ⟨ih.1.step hstep, ih.2.step ih.1 hstep⟩

/-! ## What stays written -/

/-- The ledger is only added to. -/
theorem Step.messages_extend {l l' : Ledger} (h : Step l l') :
    ∃ ms, l'.messages = l.messages ++ ms := by
  cases h with
  | skip n hn => exact ⟨[], (List.append_nil _).symm⟩
  | answer messageId error => exact ⟨_, rfl⟩
  | refuse i error hnew => exact ⟨_, rfl⟩
  | accept i hnew => exact ⟨_, rfl⟩
  | acknowledge r i hr => exact ⟨_, rfl⟩
  | finish r i c last hlast hr hs => exact ⟨_, rfl⟩
  | settle r i c last hlast hr hrel hs => exact ⟨_, List.append_assoc _ _ _⟩
  | pend s hr hs => exact ⟨_, rfl⟩
  | release s hr hs => exact ⟨_, List.append_assoc _ _ _⟩

theorem messages_extend {l l' : Ledger} (h : Relation.ReflTransGen Step l l') :
    ∃ ms, l'.messages = l.messages ++ ms := by
  induction h with
  | refl => exact ⟨[], (List.append_nil _).symm⟩
  | tail _ hstep ih =>
    obtain ⟨ms, hms⟩ := ih
    obtain ⟨ns, hns⟩ := hstep.messages_extend
    exact ⟨ms ++ ns, by rw [hns, hms, List.append_assoc]⟩

/-- A submit that made no job. -/
structure Never (l : Ledger) (r : Ref) : Prop where
  old : r < l.next
  live : l.live r = none
  events : events l.messages r = []

/-- **It never makes one.** -/
theorem Never.step {l l' : Ledger} (h : Never l r) (hstep : Step l l') : Never l' r := by
  have hlive : ∀ {q : Ref} {x : JobIdentity × Bool}, l.live q = some x → q ≠ r := by
    rintro q x hq rfl
    rw [h.live] at hq
    cases hq
  have hnext : l.next ≠ r := h.old.ne'
  cases hstep with
  | skip n hn => exact ⟨h.old.trans_le hn, h.live, h.events⟩
  | answer messageId error =>
    exact ⟨h.old, h.live, by rw [events_append, h.events, events_note (by simp)]; rfl⟩
  | refuse i error hnew =>
    exact ⟨h.old.trans (Nat.lt_succ_self _), h.live, by simp [h.events, hnext]⟩
  | accept i hnew =>
    refine ⟨h.old.trans (Nat.lt_succ_self _), ?_, by simp [h.events, hnext]⟩
    exact (Function.update_of_ne hnext.symm _ _).trans h.live
  | acknowledge q i hq =>
    refine ⟨h.old, ?_, by simp [h.events, hlive hq]⟩
    exact (Function.update_of_ne (hlive hq).symm _ _).trans h.live
  | finish q i c last hlast hq hs =>
    refine ⟨h.old, ?_, by simp [h.events, hlive hq]⟩
    exact (Function.update_of_ne (hlive hq).symm _ _).trans h.live
  | settle q i c last hlast hq hrel hs =>
    refine ⟨h.old, ?_, ?_⟩
    · exact (Function.update_of_ne (hlive hq).symm _ _).trans h.live
    · dsimp only
      rw [events_append, events_append, h.events, events_said, if_neg (hlive hq),
        events_note (by simp)]
      rfl
  | pend s hr hs =>
    exact ⟨h.old, h.live, by rw [events_append, h.events, events_note (by simp)]; rfl⟩
  | release s hr hs =>
    refine ⟨h.old, h.live, ?_⟩
    dsimp only
    rw [events_append, events_append, h.events, events_note (by simp), events_note (by simp)]
    rfl

theorem Never.steps {l l' : Ledger} (h : Never l r) (hsteps : Relation.ReflTransGen Step l l') :
    Never l' r := by
  induction hsteps with
  | refl => exact h
  | tail _ hstep ih => exact ih.step hstep

end Ledger

end Sidecar

end Tensorplate
