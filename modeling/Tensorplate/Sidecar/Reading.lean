import Tensorplate.Lib.Except
import Tensorplate.Sidecar.Model.JobTable

/-!
# What is read from a message

A message whose identity reads names a session, and a request that reads
has the identity, the class and the session of its header. The reasons of
the readers are short, so an error object holds each of them.
-/

namespace Tensorplate

namespace Sidecar

open Lib

variable {header : Header} {payload : List UInt8} {identity : JobIdentity}

theorem require_eq_ok {ok : Bool} {reason : String} {u : Unit} :
    require ok reason = .ok u ↔ ok = true := by
  unfold require
  cases ok <;> simp

/-! ## Identities -/

/-- No number of the identity is zero. -/
def JobIdentity.Valid (identity : JobIdentity) : Prop :=
  identity.jobId ≠ 0 ∧ identity.sessionKey ≠ 0 ∧ identity.generation ≠ 0

theorem checkIdentity_eq_ok {i : JobIdentity} :
    checkIdentity identity = .ok i ↔ identity.Valid ∧ i = identity := by
  unfold checkIdentity JobIdentity.Valid
  simp only [bind_eq_ok, require_eq_ok, decide_eq_true_eq, exists_const, pure, Except.pure,
    Except.ok.injEq]
  tauto

theorem checkIdentity_of_valid (h : identity.Valid) : checkIdentity identity = .ok identity :=
  checkIdentity_eq_ok.2 ⟨h, rfl⟩

/-- **A message whose identity reads names its session.** -/
theorem readSession_of_readIdentity (h : readIdentity header = .ok identity) :
    identity.Valid ∧ readSession header = .ok identity.session := by
  unfold readIdentity at h
  simp only [bind_eq_ok] at h
  obtain ⟨jobId, hj, key, hk, generation, hg, hcheck⟩ := h
  obtain ⟨hvalid, rfl⟩ := checkIdentity_eq_ok.1 hcheck
  refine ⟨hvalid, ?_⟩
  unfold readSession readSessionOf
  rw [hk, hg]
  have hsession : checkIdentity ⟨1, key, generation⟩ = .ok ⟨1, key, generation⟩ :=
    checkIdentity_of_valid ⟨Nat.one_ne_zero, hvalid.2⟩
  simp only [bind, Except.bind, hsession]
  rfl

/-! ## Requests -/

theorem fieldsOf_dict {fields : Header} {required optional : List String}
    (h : fieldsOf (some (.dict header)) required optional = .ok fields) : fields = header := by
  unfold fieldsOf at h
  dsimp only at h
  split_ifs at h
  exact (Except.ok.inj h).symm

theorem wireText_eq_ok {value : Option Value} {text : String} (h : wireText value = .ok text) :
    value = some (.str text) := by
  unfold wireText at h
  split at h
  · rw [Except.ok.inj h]
  · cases h

theorem jobClass?_eq_some {text : String} {c : JobClass} (h : jobClass? text = some c) :
    c.text = text := by
  unfold jobClass? at h
  have hfound := List.find?_some h
  simpa using hfound

theorem text_injective {c d : JobClass} (h : c.text = d.text) : c = d := by
  cases c <;> cases d <;> first | rfl | exact absurd h (by decide)

/-- The class that the header spells. -/
theorem readStructure_jobClass {s : Submitted} (h : readStructure header payload = .ok s) :
    get header "job_class" = some (.str s.jobClass) := by
  unfold readStructure at h
  simp only [bind_eq_ok] at h
  obtain ⟨fields, hf, jobClass, hc, limit, -, options, -, language, -, voice, -, speed, -,
    type, -, hrest⟩ := h
  obtain rfl := fieldsOf_dict hf
  have hget := wireText_eq_ok hc
  split at hrest
  · cases hrest
  · simp only [bind_eq_ok] at hrest
    obtain ⟨source, -, length, -, hrest⟩ := hrest
    split_ifs at hrest
    · simp only [bind_eq_ok] at hrest
      obtain ⟨numbers, -, format, -, heq⟩ := hrest
      obtain rfl := Except.ok.inj heq
      exact hget

/-- **A request that reads is of the identity and the class of its header**,
and a VAD request names an utterance. -/
theorem readSubmit_eq_ok {request : JobRequest} (h : readSubmit header payload = .ok request) :
    readIdentity header = .ok request.identity ∧
      isText (get header "job_class") "vad_frames" = decide (request.jobClass = .vadFrames) ∧
      (request.jobClass = .vadFrames → request.utteranceId ≠ 0) := by
  unfold readSubmit at h
  simp only [bind_eq_ok] at h
  obtain ⟨s, hs, identity, hidentity, hrest⟩ := h
  have hget := readStructure_jobClass hs
  split at hrest
  · cases hrest
  · rename_i jobClass hclass
    simp only [bind_eq_ok, require_eq_ok, decide_eq_true_eq, exists_const] at hrest
    obtain ⟨hinput, -, _, -, _, hpayload, heq⟩ := hrest
    obtain rfl := Except.ok.inj heq
    have htext := jobClass?_eq_some hclass
    refine ⟨hidentity, ?_, ?_⟩
    · unfold isText
      rw [hget, ← htext]
      dsimp only
      rw [decide_eq_decide]
      constructor
      · intro heq
        exact text_injective (heq.trans rfl)
      · rintro rfl
        rfl
    · intro hvad
      dsimp only at hvad
      subst hvad
      have hvadInput : s.input = .vadFrames := hinput
      unfold checkPayload at hpayload
      simp only [bind_eq_ok] at hpayload
      obtain ⟨_, -, _, -, hframes⟩ := hpayload
      unfold checkFrames at hframes
      rw [if_pos hvadInput] at hframes
      simp only [bind_eq_ok, require_eq_ok, decide_eq_true_eq, exists_const] at hframes
      exact hframes.2.2.2

/-! ## Reasons -/

section Reasons

variable {α β : Type}

/-- What a computation refuses fits into an error object. -/
def Short (x : Except Refusal α) : Prop :=
  ∀ reason, x = .error (.refused reason) → utf8Size reason ≤ limitErrorTextMaxBytes

theorem short_ok (a : α) : Short (.ok a : Except Refusal α) := by
  intro reason h
  cases h

theorem short_malformed : Short (.error .malformed : Except Refusal α) := by
  intro reason h
  cases h

theorem short_refused {reason : String} (h : utf8Size reason ≤ limitErrorTextMaxBytes) :
    Short (.error (.refused reason) : Except Refusal α) := by
  intro reason' heq
  obtain rfl := Refusal.refused.inj (Except.error.inj heq)
  exact h

theorem short_require {ok : Bool} {reason : String}
    (h : utf8Size reason ≤ limitErrorTextMaxBytes) : Short (require ok reason) := by
  unfold require
  split
  · exact short_ok ()
  · exact short_refused h

theorem Short.bind {x : Except Refusal α} {f : α → Except Refusal β} (hx : Short x)
    (hf : ∀ a, Short (f a)) : Short (x >>= f) := by
  intro reason h
  rcases bind_eq_error.1 h with h | ⟨a, -, h⟩
  · exact hx reason h
  · exact hf a reason h

theorem Short.mapM {f : α → Except Refusal β} (hf : ∀ a, Short (f a)) (xs : List α) :
    Short (xs.mapM f) := by
  induction xs with
  | nil => exact short_ok []
  | cons x rest ih =>
    rw [List.mapM_cons]
    exact (hf x).bind fun b => ih.bind fun bs => short_ok _

theorem Short.foldlM {f : β → α → Except Refusal β} (hf : ∀ b a, Short (f b a)) (xs : List α)
    (b : β) : Short (xs.foldlM f b) := by
  induction xs generalizing b with
  | nil => exact short_ok b
  | cons x rest ih =>
    rw [List.foldlM_cons]
    exact (hf b x).bind fun b' => ih b'

end Reasons

theorem short_wireInt (value : Option Value) (maximum : ℕ) : Short (wireInt value maximum) := by
  unfold wireInt
  split
  · split
    · exact short_ok _
    · exact short_malformed
  · exact short_malformed

theorem short_wireText (value : Option Value) : Short (wireText value) := by
  unfold wireText
  split
  · exact short_ok _
  · exact short_malformed

theorem short_fieldsOf (value : Option Value) (required optional : List String) :
    Short (fieldsOf value required optional) := by
  unfold fieldsOf
  split
  · split
    · exact short_ok _
    · exact short_malformed
  · exact short_malformed

theorem short_checkIdentity (identity : JobIdentity) : Short (checkIdentity identity) := by
  unfold checkIdentity
  refine (short_require (by decide)).bind fun _ => ?_
  refine (short_require (by decide)).bind fun _ => ?_
  exact (short_require (by decide)).bind fun _ => short_ok _

theorem short_readIdentity (header : Header) : Short (readIdentity header) := by
  unfold readIdentity
  refine (short_wireInt _ _).bind fun _ => ?_
  refine (short_wireInt _ _).bind fun _ => ?_
  exact (short_wireInt _ _).bind fun _ => short_checkIdentity _

theorem short_readCancel (header : Header) : Short (readCancel header) :=
  (short_fieldsOf _ _ _).bind fun _ => short_readIdentity _

theorem short_readSessionOf (header : Header) : Short (readSessionOf header) := by
  unfold readSessionOf
  refine (short_wireInt _ _).bind fun _ => ?_
  refine (short_wireInt _ _).bind fun _ => ?_
  exact (short_checkIdentity _).bind fun _ => short_ok _

theorem short_readSessionRelease (header : Header) : Short (readSessionRelease header) :=
  (short_fieldsOf _ _ _).bind fun _ => short_readSessionOf _

theorem short_checkPcm (format required : AudioFormat) (size : ℕ) :
    Short (checkPcm format required size) := by
  unfold checkPcm
  refine (short_require (by decide)).bind fun _ => ?_
  refine (short_require (by decide)).bind fun _ => ?_
  exact short_require (by decide)

theorem short_readNumbers (input : JobInput) (source : Header) :
    Short (readNumbers input source) := by
  unfold readNumbers
  split
  · exact (short_wireInt _ _).bind fun _ => short_ok _
  · exact short_ok _
  · refine (short_wireInt _ _).bind fun _ => ?_
    refine (short_wireInt _ _).bind fun _ => ?_
    exact (short_wireInt _ _).bind fun _ => short_ok _

theorem short_readFormat (source : Header) : Short (readFormat source) := by
  unfold readFormat
  split
  · exact short_ok _
  · refine (short_fieldsOf _ _ _).bind fun _ => ?_
    refine (short_wireText _).bind fun _ => ?_
    refine (short_wireInt _ _).bind fun _ => ?_
    exact (short_wireInt _ _).bind fun _ => short_ok _

theorem short_optionalText (options : Header) (name : String) :
    Short (optionalText options name) := by
  unfold optionalText
  split
  · exact short_ok _
  · exact short_wireText _

theorem short_inputType (source : Option Value) : Short (inputType source) := by
  unfold inputType
  split
  · exact short_wireText _
  · exact short_ok _

theorem short_readStructure (header : Header) (payload : List UInt8) :
    Short (readStructure header payload) := by
  unfold readStructure
  refine (short_fieldsOf _ _ _).bind fun _ => ?_
  refine (short_wireText _).bind fun _ => ?_
  refine (short_wireInt _ _).bind fun _ => ?_
  refine (short_fieldsOf _ _ _).bind fun _ => ?_
  refine (short_optionalText _ _).bind fun _ => ?_
  refine (short_optionalText _ _).bind fun _ => ?_
  refine (short_wireInt _ _).bind fun _ => ?_
  refine (short_inputType _).bind fun _ => ?_
  split
  · exact short_malformed
  · refine (short_fieldsOf _ _ _).bind fun _ => ?_
    refine (short_wireInt _ _).bind fun _ => ?_
    split
    · exact short_malformed
    · refine (short_readNumbers _ _).bind fun _ => ?_
      exact (short_readFormat _).bind fun _ => short_ok _

theorem short_checkOptions (jobClass : JobClass) (s : Submitted) :
    Short (checkOptions jobClass s) := by
  unfold checkOptions checkLanguage checkVoice
  refine (short_require (by decide)).bind fun _ => ?_
  refine (short_require (by decide)).bind fun _ => ?_
  refine Short.bind ?_ fun _ => ?_
  · split
    · exact short_ok _
    · exact (short_require (by decide)).bind fun _ => short_require (by decide)
  · split
    · refine (short_require (by decide)).bind fun _ => ?_
      exact (short_require (by decide)).bind fun _ => short_require (by decide)
    · exact short_ok _

theorem short_checkPayload (s : Submitted) (payload : List UInt8) :
    Short (checkPayload s payload) := by
  unfold checkPayload checkBody checkSize checkFrames
  refine Short.bind ?_ fun _ => Short.bind ?_ fun _ => ?_
  · split
    · refine (short_require (by decide)).bind fun _ => ?_
      exact (short_require (by decide)).bind fun _ => short_require (by decide)
    · exact short_checkPcm _ _ _
  · split
    · exact short_require (by decide)
    · exact short_ok _
  · split
    · refine (short_require (by decide)).bind fun _ => ?_
      refine (short_require (by decide)).bind fun _ => ?_
      exact (short_require (by decide)).bind fun _ => short_require (by decide)
    · exact short_ok _

theorem short_readSubmit (header : Header) (payload : List UInt8) :
    Short (readSubmit header payload) := by
  unfold readSubmit
  refine (short_readStructure _ _).bind fun s => ?_
  refine (short_readIdentity _).bind fun _ => ?_
  split
  · exact short_refused (by decide)
  · refine (short_require (by decide)).bind fun _ => ?_
    refine (short_require (by decide)).bind fun _ => ?_
    refine (short_checkOptions _ _).bind fun _ => ?_
    exact (short_checkPayload _ _).bind fun _ => short_ok _

theorem short_renderWord (tokens : ℕ) (s : WordState) (word : WordUnit) :
    Short (renderWord tokens s word) := by
  unfold renderWord
  refine (short_require (by decide)).bind fun _ => ?_
  refine (short_require (by decide)).bind fun _ => ?_
  refine (short_wireInt _ _).bind fun _ => ?_
  refine (short_wireInt _ _).bind fun _ => ?_
  refine (short_wireInt _ _).bind fun _ => ?_
  refine (short_wireInt _ _).bind fun _ => ?_
  refine (short_require (by decide)).bind fun _ => ?_
  refine (short_require (by decide)).bind fun _ => ?_
  refine (short_require (by decide)).bind fun _ => ?_
  refine (short_require (by decide)).bind fun _ => ?_
  exact (short_require (by decide)).bind fun _ => short_ok _

theorem short_renderProbability (value : Value) : Short (renderProbability value) := by
  unfold renderProbability
  split
  · split
    · exact short_ok _
    · exact short_refused (by decide)
  · split
    · exact short_ok _
    · exact short_refused (by decide)
  · exact short_refused (by decide)
  · exact short_malformed

theorem short_renderResult (result : JobResult) : Short (renderResult result) := by
  unfold renderResult
  split
  · unfold renderTranscript
    refine (short_require (by decide)).bind fun _ => ?_
    refine (Short.mapM (fun _ => short_wireInt _ _) _).bind fun tokens => ?_
    refine (short_require (by decide)).bind fun _ => ?_
    exact (Short.foldlM (short_renderWord tokens.length) _ _).bind fun _ => short_ok _
  · refine (short_checkPcm _ _ _).bind fun _ => ?_
    refine (short_require (by decide)).bind fun _ => ?_
    refine (short_wireInt _ _).bind fun _ => ?_
    exact (short_require (by decide)).bind fun _ => short_ok _
  · refine (short_require (by decide)).bind fun _ => ?_
    exact (Short.mapM short_renderProbability _).bind fun _ => short_ok _
  · exact short_malformed

end Sidecar

end Tensorplate
