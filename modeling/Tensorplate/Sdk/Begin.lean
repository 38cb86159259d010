import Tensorplate.Sdk.Reading

/-!
# The calls of an open

`_begin` makes a call on a session that nobody gave up: the first on a
session that has none, the second where the first is kept aside. Whatever
leaves `_begin` behind ends the session, or cancels it where it waits.
-/

namespace Tensorplate

namespace Sdk

open Lib

variable {w w' : World}

/-! ## `_begin` -/

/-- `_begin` may go on to any stage that its call allows. -/
theorem Opens.atStage (h : Opens w) {stage : BeginStage} (habsent : stage ≠ .absent)
    (hfresh : stage ≠ .fresh) (hcall : stage = .raised ∨ w.session.call.isSome)
    (hfollow : stage = .follow → w.session.lost.isSome)
    (hreturned : stage = .returned → w.session.ready.isSome) :
    Opens { w with begins := stage } := by
  refine { h with unopened := fun hnone => ?_, fresh := fun hb => absurd hb hfresh,
                  follow := fun hb => ?_, waiting := ⟨h.waiting.1, fun _ => habsent⟩,
                  returned := ?_ }
  · obtain ⟨h₁, h₂, h₃, h₄, -, h₆⟩ := h.unopened hnone
    have hnone₁ : w.session.call = none := hnone
    refine ⟨h₁, h₂, h₃, h₄, .inr (.inr ?_), h₆⟩
    rcases hcall with hraised | hsome
    · exact hraised
    · rw [hnone₁] at hsome
      exact absurd hsome (by simp)
  · obtain ⟨-, -, -, -, -, hone, hdone, -⟩ := h.lost (hfollow hb)
    exact ⟨hone, hdone, fun _ => .inl (hfollow hb)⟩
  · rintro (hb | ho)
    · exact hreturned hb
    · exact h.returned (.inr ho)

theorem Opens.raises (h : Opens w) : Opens { w with begins := .raised } :=
  h.atStage nofun nofun (.inl rfl) nofun nofun

/-- A step of `_begin` that leaves the session as it is. -/
theorem Keeps.atStage {stage : BeginStage} (h : Opens { w with begins := stage }) (ha : Armed w) :
    Keeps w { w with begins := stage } :=
  ⟨h, ⟨ha.pinger, ha.tasks⟩, fun he => ⟨he, rfl⟩⟩

theorem Opens.call_of_begins (h : Opens w) (habsent : w.begins ≠ .absent) (hfresh : w.begins ≠ .fresh)
    (hraised : w.begins ≠ .raised) : w.session.call.isSome := by
  rcases hcall : w.session.call with - | n
  · obtain ⟨-, -, -, -, hbegins, -⟩ := h.unopened hcall
    rcases hbegins with hb | hb | hb
    · exact absurd hb habsent
    · exact absurd hb hfresh
    · exact absurd hb hraised
  · rfl

/-- **A call is made**: on a session that nobody gave up, and where the calls
before it allow it. -/
theorem Opens.connects (h : Opens w) {s : Session} {m : ℕ} {stage : BeginStage}
    (hstage : stage = .lock ∨ stage = .writing ∨ stage = .raised)
    (hcall : s.call = some (m + 1)) (hlog : s.log = w.session.log ++ [.connected (m + 1)])
    (hcalls : callsIn w.session.log = List.range' 1 m)
    (hok : OkCall w.session.log (.connected (m + 1))) (hn : m + 1 = if s.reopened then 2 else 1)
    (hready : s.ready = none) (hended : s.ended = false) (hlost : s.lost = none)
    (hopening : s.opening = w.session.opening) (hwrite : s.writeFailed = false)
    (hfailure : s.failure = none) (habort : s.abortError = w.session.abortError)
    (hreturned : w.opener ≠ .returned) :
    Opens { w with session := s, reader := .reading, begins := stage } := by
  obtain ⟨hcancelled, haborted, hshut, -⟩ := id hok
  have hmem : ∀ {x : Happened}, x ∈ s.log → x ∈ w.session.log ∨ x = .connected (m + 1) := by
    intro x hx
    rw [hlog, List.mem_append, List.mem_singleton] at hx
    exact hx
  have hnever : ∀ {st : BeginStage}, st ≠ .lock → st ≠ .writing → st ≠ .raised → stage ≠ st := by
    rintro st h₁ h₂ h₃ rfl
    rcases hstage with hs | hs | hs
    · exact h₁ hs
    · exact h₂ hs
    · exact h₃ hs
  refine ⟨?_, ?_, ?_, ?_, ?_, ?_, ?_, ?_, ?_, ?_, ?_, ?_, ?_, ?_, ?_, ?_, ?_, ?_⟩
  · show callsIn s.log = List.range' 1 (s.call.getD 0)
    rw [hlog, callsIn_append, hcalls, hcall]
    show List.range' 1 m ++ [m + 1] = List.range' 1 (m + 1)
    rw [List.range'_1_concat, Nat.add_comm 1 m]
  · intro k hk
    have hk₁ : s.call = some k := hk
    rw [hcall] at hk₁
    obtain rfl := Option.some.inj hk₁
    exact hn
  · intro hnone
    have hnone₁ : s.call = none := hnone
    rw [hcall] at hnone₁
    exact absurd hnone₁ (by simp)
  · exact fun _ => ⟨hended, hlost, by show s.call.isSome; rw [hcall]; rfl⟩
  · intro hl
    have hl₁ : s.lost.isSome := hl
    rw [hlost] at hl₁
    exact absurd hl₁ (by simp)
  · show s.opening = true ↔ _
    rw [hopening]
    exact h.opening
  · exact fun hb => absurd hb (hnever nofun nofun nofun)
  · exact fun hb => absurd hb (hnever nofun nofun nofun)
  · exact ⟨h.waiting.1, fun _ => hnever nofun nofun nofun⟩
  · rintro (hb | ho)
    · exact absurd hb (hnever nofun nofun nofun)
    · exact absurd ho hreturned
  · intro hr
    have hr₁ : s.ready.isSome := hr
    rw [hready] at hr₁
    exact absurd hr₁ (by simp)
  · intro hf
    have hf₁ : s.writeFailed = true := hf
    rw [hwrite] at hf₁
    exact absurd hf₁ (by simp)
  · rintro (hin | hin)
    · rcases hmem hin with hin | hin
      · exact absurd hin hcancelled
      · exact absurd hin (by simp)
    · rcases hmem hin with hin | hin
      · exact absurd hin hshut
      · exact absurd hin (by simp)
  · intro hin
    rcases hmem hin with hin | hin
    · exact absurd hin haborted
    · exact absurd hin (by simp)
  · show Lawful OkCall s.log
    rw [hlog]
    exact lawful_append_singleton.2 ⟨h.lawful, hok⟩
  · exact fun _ => .inl (by show s.call.isSome; rw [hcall]; rfl)
  · exact fun _ => hfailure
  · intro ho
    show s.abortError.isSome
    rw [habort]
    exact h.aborting ho

/-- The Open is written, or waits for the lock, or is refused. -/
theorem opens_connectOpen (h : ∀ stage : BeginStage,
      stage = .lock ∨ stage = .writing ∨ stage = .raised →
      Opens { w with session := w.session.connected, reader := .reading, begins := stage }) :
    Opens w.connectOpen := by
  unfold World.connectOpen
  dsimp only
  split
  · exact h _ (.inl rfl)
  split
  · rename_i s hbegin
    exact (h _ (.inr (.inl rfl))).same
      (SameOpen.of_session (SameSession.beginWrite hbegin) w.tasks w.pinger)
  · exact h _ (.inr (.inr rfl))

theorem Armed.connectOpen (h : Armed w) : Armed w.connectOpen := by
  unfold World.connectOpen
  dsimp only
  split
  · exact ⟨h.pinger, h.tasks⟩
  split
  · rename_i s hbegin
    have hs := SameSession.beginWrite hbegin
    refine ⟨fun hp => ?_, fun n hn => ?_⟩
    · show s.ready.isSome
      rw [hs.ready]
      exact h.pinger hp
    · have hwrites := h.tasks n hn
      unfold Writes at hwrites ⊢
      show s.ready.isSome ∨ s.cancelling = true
      rwa [hs.ready, hs.cancelling]
  · exact ⟨h.pinger, h.tasks⟩

theorem Opens.not_returned (h : Opens w) (hready : w.session.ready = none) :
    w.opener ≠ .returned := by
  intro ho
  have hsome := h.returned (.inr ho)
  rw [hready] at hsome
  exact absurd hsome (by simp)

/-- No failed write is left over before the first call. -/
theorem Opens.unfailedWrite (h : Opens w) (hcall : w.session.call = none)
    (hended : w.session.ended = false) : w.session.writeFailed = false := by
  obtain ⟨-, -, hready, -, -, hgivenUp⟩ := h.unopened hcall
  rcases hfailed : w.session.writeFailed with - | -
  · rfl
  · rcases h.writeFailed hfailed with hc | hr | ⟨n, hn, -⟩
    · rw [hgivenUp (.inl hc)] at hended
      exact absurd hended (by simp)
    · rw [hready] at hr
      exact absurd hr (by simp)
    · rw [hcall] at hn
      exact absurd hn (by simp)

/-- **The first call.** -/
theorem Opens.connectFirst (h : Opens w) (hcall : w.session.call = none)
    (hended : w.session.ended = false) : Opens w.connectOpen := by
  obtain ⟨hreopened, -, hready, hlost, -, hgivenUp⟩ := h.unopened hcall
  have hnot : ¬(w.session.cancelling = true ∨ w.session.abortError.isSome) := by
    intro hor
    rw [hgivenUp hor] at hended
    exact absurd hended (by simp)
  have hcalls : callsIn w.session.log = [] := by
    have hrange := h.calls
    rw [hcall] at hrange
    exact hrange
  have hok : OkCall w.session.log (.connected (0 + 1)) :=
    ⟨fun hin => hnot (.inl (h.cancelled (.inl hin))), fun hin => hnot (.inr (h.aborted hin)),
      fun hin => hnot (.inl (h.cancelled (.inr hin))), .inl hcalls⟩
  have hfirst : w.session.connected =
      { w.session with call := some (0 + 1) }.note (.connected (0 + 1)) := by
    unfold Session.connected
    rw [hcall]
    rfl
  refine opens_connectOpen fun stage hstage => ?_
  rw [hfirst]
  refine h.connects hstage rfl rfl hcalls hok ?_ hready hended hlost rfl
    (h.unfailedWrite hcall hended) (h.unfailed hended) rfl (h.not_returned hready)
  show 0 + 1 = if w.session.reopened then 2 else 1
  rw [hreopened]
  rfl

/-- **The second call.** -/
theorem Opens.connectSecond (h : Opens w) (hlost : w.session.lost.isSome)
    (hallows : AllowsSecond w.session.log) :
    Opens (World.connectOpen { w with session := { w.session with
      lost := none, reopened := true, writeFailed := false, sent := 0 } }) := by
  obtain ⟨hended, hcancelling, habort, hopening, hreopened, hcall, -, hready, -⟩ := h.lost hlost
  have hcalls : callsIn w.session.log = [1] := by
    have hrange := h.calls
    rw [hcall] at hrange
    exact hrange
  have hgiven : Happened.cancelled ∉ w.session.log ∧ Happened.shut ∉ w.session.log := by
    constructor
    · intro hin
      have hc := h.cancelled (.inl hin)
      rw [hcancelling] at hc
      exact absurd hc (by simp)
    · intro hin
      have hc := h.cancelled (.inr hin)
      rw [hcancelling] at hc
      exact absurd hc (by simp)
  have haborted : Happened.aborted ∉ w.session.log := by
    intro hin
    have ha := h.aborted hin
    rw [habort] at ha
    exact absurd ha (by simp)
  have hok : OkCall w.session.log (.connected (1 + 1)) :=
    ⟨hgiven.1, haborted, hgiven.2, .inr ⟨hcalls, hallows⟩⟩
  have hsecond : { w.session with
        lost := none, reopened := true, writeFailed := false, sent := 0 }.connected =
      { w.session with lost := none, reopened := true, writeFailed := false, sent := 0
                       call := some (1 + 1) }.note (.connected (1 + 1)) := by
    unfold Session.connected
    dsimp only
    rw [hcall]
    rfl
  refine opens_connectOpen fun stage hstage => ?_
  dsimp only
  rw [hsecond]
  exact h.connects hstage rfl rfl hcalls hok rfl hready hended rfl rfl rfl (h.unfailed hended) rfl
    (h.not_returned hready)

/-- The second call, where the channel is open. -/
theorem keeps_connectAgain (h : Opens w) (ha : Armed w) (hlost : w.session.lost.isSome)
    (hallows : AllowsSecond w.session.log) (channel : Bool) :
    Keeps w (w.connectAgain channel) := by
  have hended := (h.lost hlost).1
  unfold World.connectAgain
  split
  · refine ⟨h.raises.shut, ?_, staysEnded_shut h⟩
    have hshut := ha.shut
    exact ⟨hshut.pinger, hshut.tasks⟩
  · refine ⟨h.connectSecond hlost hallows, Armed.connectOpen ⟨ha.pinger, ha.tasks⟩, fun he => ?_⟩
    rw [hended] at he
    exact absurd he (by simp)

/-- `_begin` past the end of its first call. -/
theorem keeps_beginRaised (h : Opens w) (ha : Armed w) (channel : Bool) :
    Keeps w (w.beginRaised channel) := by
  unfold World.beginRaised
  split
  · exact Keeps.atStage h.raises ha
  rename_i hsome
  have hlost : w.session.lost.isSome := by simpa [Option.isSome_iff_ne_none] using hsome
  obtain ⟨-, -, -, -, -, hcall, -, -, status, before, after, hlog, hok, hretry, htargets⟩ := h.lost hlost
  split
  · refine Keeps.atStage (h.atStage nofun nofun (.inr ?_) (fun _ => hlost) nofun) ha
    rw [hcall]
    rfl
  · rename_i hdirect
    -- Without targets only a loss that allows a second call is kept aside.
    have hfor := hretry (htargets (by simpa using hdirect))
    refine keeps_connectAgain h ha hlost ⟨status, before, after, hlog, hok, ?_⟩ channel
    rcases hfor with hu | hi
    · exact .inl hu
    · exact .inr (.inl hi)

/-- The session goes on with another target. -/
theorem Opens.retarget (h : Opens w) (target : StreamTarget) :
    Opens (w.withSession { w.session with target := target }) :=
  { h with }

theorem Armed.retarget (h : Armed w) (target : StreamTarget) :
    Armed (w.withSession { w.session with target := target }) :=
  ⟨h.pinger, h.tasks⟩

/-- A session that was abandoned does not end another way. -/
theorem staysEnded_settle {s : Session} {failure : Option SpeechError}
    (h : s.ended = true → Abandoned s) : StaysEnded s (s.settle failure) := by
  intro he
  obtain ⟨-, hcancelling, hfailure⟩ := h he
  refine ⟨rfl, ?_⟩
  unfold Session.settle
  rw [hcancelling, hfailure]
  rfl

/-- `_begin` settles the session and raises. -/
theorem keeps_raisesSettled (h : Opens w) (ha : Armed w) (failure : Option SpeechError)
    (hreader : w.reader ≠ .reading ∧ w.reader ≠ .concluding)
    (habandoned : w.session.ended = true → Abandoned w.session) :
    Keeps w { w with session := w.session.settle failure, begins := .raised } := by
  refine ⟨h.raises.settle hreader ?_, ⟨ha.pinger, ha.tasks⟩, staysEnded_settle habandoned⟩
  rintro (hb | hb)
  · exact absurd hb (by simp)
  · exact absurd hb (by simp)

/-- `_begin` before its first call, with the session it goes on with. -/
theorem keeps_first {s : Session} {channel : Bool} (h : Opens (w.withSession s))
    (ha : Armed (w.withSession s)) (hbegins : w.begins = .fresh)
    (hsame : s.ended = w.session.ended ∧ s.failure = w.session.failure)
    (hstep : (if s.ended then some { w with session := s, begins := .raised }
      else if !channel then some { w with session := s.shut, begins := .raised }
      else some (World.connectOpen { w with session := s })) = some w') : Keeps w w' := by
  have hcall := (h.fresh hbegins).1
  have hstays : StaysEnded w.session s := fun he => ⟨hsame.1.trans he, hsame.2⟩
  split at hstep
  · obtain rfl := Option.some.inj hstep
    exact ⟨h.raises, ⟨ha.pinger, ha.tasks⟩, hstays⟩
  rename_i hended
  have hopen : w.session.ended = true → False := fun he => hended (hsame.1.trans he)
  split at hstep
  · obtain rfl := Option.some.inj hstep
    exact ⟨h.raises.shut, ⟨ha.shut.pinger, ha.shut.tasks⟩, fun he => (hopen he).elim⟩
  · obtain rfl := Option.some.inj hstep
    exact ⟨h.connectFirst hcall (Bool.eq_false_iff.2 hended), ha.connectOpen,
      fun he => (hopen he).elim⟩

theorem keeps_beginFresh {found : Except String StreamTarget} {channel : Bool} (h : Opens w)
    (ha : Armed w) (hstep : w.beginFresh found channel = some w') : Keeps w w' := by
  unfold World.beginFresh at hstep
  split at hstep
  · exact absurd hstep (by simp)
  rename_i hguard
  rw [not_or, not_not] at hguard
  obtain ⟨hbegins, hcancelled⟩ := hguard
  obtain ⟨hcall, habandoned⟩ := h.fresh hbegins
  dsimp only at hstep
  rcases htargets : w.session.targets with - | -
  · rw [if_neg (by simp [htargets])] at hstep
    exact keeps_first h ha hbegins ⟨rfl, rfl⟩ hstep
  · rw [if_pos htargets] at hstep
    rcases found with what | target
    · obtain rfl := Option.some.inj hstep
      exact keeps_raisesSettled h ha _ (h.noReader (.inl hcall)) (habandoned (by simpa using hcancelled))
    · refine keeps_first ?_ ?_ hbegins ?_ hstep
      · split
        · exact h
        · exact h.retarget target
      · split
        · exact ha
        · exact ha.retarget target
      · split
        · exact ⟨rfl, rfl⟩
        · exact ⟨rfl, rfl⟩

theorem keeps_openLocked {channel : Bool} (h : Opens w) (ha : Armed w)
    (hstep : w.openLocked channel = some w') : Keeps w w' := by
  unfold World.openLocked at hstep
  split at hstep
  · exact absurd hstep (by simp)
  rename_i hguard
  rw [not_or, not_not] at hguard
  have hcall := h.call_of_begins (by simp [hguard.1]) (by simp [hguard.1]) (by simp [hguard.1])
  split at hstep
  · rename_i s hbegin
    obtain rfl := Option.some.inj hstep
    have hs := SameSession.beginWrite hbegin
    have hwriting : Keeps w { w with begins := .writing } :=
      Keeps.atStage (h.atStage nofun nofun (.inr hcall) nofun nofun) ha
    exact hwriting.trans_unseen ⟨⟨hs, rfl, rfl, rfl, rfl⟩, fun harmed => harmed.withSession hs⟩
  · obtain rfl := Option.some.inj hstep
    exact keeps_beginRaised h ha channel

/-- The write of the Open failed. -/
theorem keeps_openWriteFails (h : Opens w) (ha : Armed w) (hcall : w.session.call.isSome) :
    Keeps w (w.withSession
      ({ w.session with writeFailed := true }.note (.openWriteFailed (w.session.call.getD 0)))) := by
  obtain ⟨n, hn⟩ := Option.isSome_iff_exists.1 hcall
  have hnote := h.note (x := .openWriteFailed (w.session.call.getD 0)) nofun nofun nofun
  refine ⟨{ hnote with writeFailed := fun _ => .inr (.inr ⟨n, hn, ?_⟩) }, ⟨ha.pinger, ha.tasks⟩,
    fun he => ⟨he, rfl⟩⟩
  show Happened.openWriteFailed n ∈
    w.session.log ++ [.openWriteFailed (w.session.call.getD 0)]
  rw [hn]
  exact List.mem_append_right _ List.mem_cons_self

theorem keeps_openAttemptFailed (h : Opens w) (ha : Armed w)
    (hstep : w.openAttemptFailed = some w') : Keeps w w' := by
  unfold World.openAttemptFailed at hstep
  split at hstep
  · exact absurd hstep (by simp)
  rename_i hguard
  rw [not_not] at hguard
  obtain rfl := Option.some.inj hstep
  exact keeps_openWriteFails h ha
    (h.call_of_begins (by simp [hguard]) (by simp [hguard]) (by simp [hguard]))

theorem keeps_openWritten {ok : Bool} (h : Opens w) (ha : Armed w)
    (hstep : w.openWritten ok = some w') : Keeps w w' := by
  unfold World.openWritten at hstep
  split at hstep
  · exact absurd hstep (by simp)
  rename_i hguard
  rw [not_or, not_not] at hguard
  have hcall := h.call_of_begins (by simp [hguard.1]) (by simp [hguard.1]) (by simp [hguard.1])
  split at hstep
  · obtain rfl := Option.some.inj hstep
    have hs := SameSession.endWrite w.session
    have hwaits : Keeps w { w with begins := .untilReady } :=
      Keeps.atStage (h.atStage nofun nofun (.inr hcall) nofun nofun) ha
    exact hwaits.trans_unseen ⟨⟨hs, rfl, rfl, rfl, rfl⟩, fun harmed => harmed.withSession hs⟩
  · obtain rfl := Option.some.inj hstep
    obtain ⟨hopens, harmed, hstays⟩ := keeps_openWriteFails h ha hcall
    exact ⟨hopens.atStage nofun nofun (.inr hcall) nofun nofun, ⟨harmed.pinger, harmed.tasks⟩, hstays⟩

theorem keeps_openEnding {channel : Bool} (h : Opens w) (ha : Armed w)
    (hstep : w.openEnding channel = some w') : Keeps w w' := by
  unfold World.openEnding at hstep
  split at hstep
  · exact absurd hstep (by simp)
  obtain rfl := Option.some.inj hstep
  have hs := SameSession.endWrite w.session
  have hunseen : Unseen w { w with session := w.session.endWrite } :=
    ⟨SameOpen.of_session hs w.tasks w.pinger, fun harmed => harmed.withSession hs⟩
  exact hunseen.keeps_trans (keeps_beginRaised (h.same hunseen.1) (hunseen.2 ha) channel)

theorem keeps_openAnswered {channel : Bool} (h : Opens w) (ha : Armed w)
    (hstep : w.openAnswered channel = some w') : Keeps w w' := by
  unfold World.openAnswered at hstep
  split at hstep
  · exact absurd hstep (by simp)
  rename_i hguard
  rw [not_or, not_not] at hguard
  have hcall := h.call_of_begins (by simp [hguard.1]) (by simp [hguard.1]) (by simp [hguard.1])
  split at hstep
  · rename_i hready
    obtain rfl := Option.some.inj hstep
    exact Keeps.atStage (h.atStage nofun nofun (.inr hcall) nofun fun _ => hready) ha
  split at hstep
  · obtain rfl := Option.some.inj hstep
    exact keeps_beginRaised h ha channel
  · exact absurd hstep (by simp)

theorem keeps_beginUnwinds (h : Opens w) (ha : Armed w) (hstep : w.beginUnwinds = some w') :
    Keeps w w' := by
  unfold World.beginUnwinds at hstep
  split at hstep
  · obtain rfl := Option.some.inj hstep
    exact Keeps.atStage h.raises ha
  · exact absurd hstep (by simp)

/-- **`_follow`.** -/
theorem keeps_follow {found : Except String StreamTarget} {channel : Bool} (h : Opens w)
    (ha : Armed w) (hstep : w.follow found channel = some w') : Keeps w w' := by
  unfold World.follow at hstep
  split at hstep
  · exact absurd hstep (by simp)
  rename_i hguard
  rw [not_or, not_not] at hguard
  obtain ⟨hcall, hdone, hkept⟩ := h.follow hguard.1
  have hreader : w.reader ≠ .reading ∧ w.reader ≠ .concluding := by
    rw [hdone]
    exact ⟨nofun, nofun⟩
  have hlost := hkept (by simpa using hguard.2)
  have habandoned : w.session.ended = true → Abandoned w.session := by
    intro he
    rcases hlost with hl | habandoned
    · rw [(h.lost hl).1] at he
      exact absurd he (by simp)
    · exact habandoned
  split at hstep
  · obtain rfl := Option.some.inj hstep
    exact keeps_raisesSettled h ha _ hreader habandoned
  rename_i target
  have hnote := h.note (x := .named w.session.target target) nofun nofun nofun
  have harmed : Armed (w.withSession (w.session.note (.named w.session.target target))) :=
    ⟨ha.pinger, ha.tasks⟩
  dsimp only at hstep
  split at hstep
  · obtain rfl := Option.some.inj hstep
    exact ⟨hnote.raises, ⟨ha.pinger, ha.tasks⟩, fun he => ⟨he, rfl⟩⟩
  rename_i hended
  have hl : w.session.lost.isSome := by
    rcases hlost with hl | ⟨he, -⟩
    · exact hl
    · exact absurd he hended
  split at hstep
  · obtain rfl := Option.some.inj hstep
    have hkeeps := keeps_raisesSettled hnote harmed
      (w.session.note (.named w.session.target target)).lost hreader habandoned
    exact ⟨hkeeps.opens, hkeeps.armed, hkeeps.stays⟩
  · rename_i hother
    obtain rfl := Option.some.inj hstep
    obtain ⟨-, -, -, -, -, -, -, -, status, before, after, hlog, hok, hretry, -⟩ := h.lost hl
    have hallows : AllowsSecond (w.session.note (.named w.session.target target)).log := by
      refine ⟨status, before, after ++ [.named w.session.target target], ?_, hok, ?_⟩
      · show w.session.log ++ [.named w.session.target target] = _
        rw [hlog, List.append_assoc, List.cons_append]
      by_cases hr : w.session.lostRetryable = true
      · rcases hretry hr with hu | hi
        · exact .inl hu
        · exact .inr (.inl hi)
      · refine .inr (.inr ⟨w.session.target, target, List.mem_append_right _ List.mem_cons_self, ?_⟩)
        intro heq
        exact hother ⟨heq, by simpa [Session.note] using hr⟩
    have hkeeps := keeps_connectAgain (hnote.retarget target) (harmed.retarget target) hl hallows
      channel
    exact ⟨hkeeps.opens, hkeeps.armed, hkeeps.stays⟩

/-! ## `open` -/

theorem keeps_openCalled (h : Opens w) (ha : Armed w) (hstep : w.openCalled = some w') :
    Keeps w w' := by
  unfold World.openCalled at hstep
  split at hstep
  · exact absurd hstep (by simp)
  rename_i hguard
  simp only [Bool.or_eq_true, not_or, Bool.not_eq_true, Option.isSome_eq_false_iff,
    Option.isNone_iff_eq_none] at hguard
  obtain ⟨⟨hopening, hcall⟩, hended⟩ := hguard
  obtain rfl := Option.some.inj hstep
  obtain ⟨h₁, h₂, h₃, h₄, -, h₆⟩ := h.unopened hcall
  have habsent : w.opener = .absent := by
    have hnot : ¬(w.opener = .waiting ∨ w.opener = .aborting) := by
      rw [← h.opening, hopening]
      exact nofun
    have hexited : ¬(w.opener = .returned ∨ w.opener = .raised) := by
      intro ho
      rcases h.exited ho with hsome | he
      · rw [hcall] at hsome
        exact absurd hsome (by simp)
      · rw [hended] at he
        exact absurd he (by simp)
    rcases ho : w.opener with - | - | - | - | -
    · rfl
    · exact absurd (.inl ho) hnot
    · exact absurd (.inr ho) hnot
    · exact absurd (.inl ho) hexited
    · exact absurd (.inr ho) hexited
  refine ⟨{ h with unopened := fun _ => ⟨h₁, h₂, h₃, h₄, .inr (.inl rfl), h₆⟩
                   lost := fun hl => ?_
                   opening := ⟨fun _ => .inl rfl, fun _ => rfl⟩
                   fresh := fun _ => ⟨hcall, fun _ he => ?_⟩
                   follow := fun hb => absurd hb (by simp)
                   waiting := ⟨fun _ => h.waiting.1 (.inr habsent), fun _ => nofun⟩
                   returned := ?_
                   exited := ?_
                   aborting := fun ho => absurd ho (by simp) }, ⟨ha.pinger, ha.tasks⟩,
    fun he => ⟨he, rfl⟩⟩
  · have hl₁ : w.session.lost.isSome := hl
    rw [h₄] at hl₁
    exact absurd hl₁ (by simp)
  · have he₁ : w.session.ended = true := he
    rw [hended] at he₁
    exact absurd he₁ (by simp)
  · rintro (hb | ho)
    · exact absurd hb (by simp)
    · exact absurd ho (by simp)
  · rintro (ho | ho)
    · exact absurd ho (by simp)
    · exact absurd ho (by simp)

/-- `open` is done, with no call kept aside. -/
theorem Opens.exits (h : Opens w) {o : OpenStage} (hlost : w.session.lost = none)
    (ho : o = .raised ∨ (o = .returned ∧ w.session.ready.isSome))
    (hexit : w.session.call.isSome ∨ w.session.ended = true) :
    Opens { w with session := { w.session with opening := false }, opener := o } := by
  have hnever : ∀ {o' : OpenStage}, o' ≠ .raised → o' ≠ .returned → o ≠ o' := by
    rintro o' h₁ h₂ rfl
    rcases ho with ho | ⟨ho, -⟩
    · exact h₁ ho
    · exact h₂ ho
  refine { h with lost := fun hl => ?_
                  opening := ⟨fun hopening => absurd hopening (by simp), ?_⟩
                  waiting := ⟨?_, fun hw => absurd hw (hnever nofun nofun)⟩
                  returned := ?_
                  exited := fun _ => hexit
                  aborting := fun ha => absurd ha (hnever nofun nofun) }
  · have hl₁ : w.session.lost.isSome := hl
    rw [hlost] at hl₁
    exact absurd hl₁ (by simp)
  · rintro (hw | ha)
    · exact absurd hw (hnever nofun nofun)
    · exact absurd ha (hnever nofun nofun)
  · rintro (hw | ha)
    · exact absurd hw (hnever nofun nofun)
    · exact absurd ha (hnever nofun nofun)
  · rintro (hb | hr)
    · exact h.returned (.inl hb)
    · rcases ho with rfl | ⟨-, hready⟩
      · exact absurd hr (by simp)
      · exact hready

/-- The `finally` of `open`, where it raises. -/
theorem keeps_openDone (h : Opens w) (ha : Armed w)
    (hsettles : w.session.lost.isSome → Settles w w.session)
    (hexit : w.session.call.isSome ∨ w.session.ended = true) :
    Keeps w { w with session := (World.openDone w.session).note .openRaised, opener := .raised } := by
  have hquiet : Happened.Quiet .openRaised := trivial
  rcases hlost : w.session.lost with - | error
  · have hdone : World.openDone w.session = { w.session with opening := false } := by
      unfold World.openDone
      dsimp only
      rw [hlost]
    rw [hdone]
    have hexits := h.exits hlost (.inl rfl) hexit
    exact ⟨hexits.same ⟨SameSession.note _ hquiet, rfl, rfl, rfl, rfl⟩, ⟨ha.pinger, ha.tasks⟩,
      fun he => ⟨he, rfl⟩⟩
  · have hsome : w.session.lost.isSome := by
      rw [hlost]
      rfl
    have hdone : World.openDone w.session =
        { w.session.settle (some error) with opening := false } := by
      unfold World.openDone
      dsimp only
      rw [hlost]
      rfl
    rw [hdone]
    have hsettled : Opens (w.withSession (w.session.settle (some error))) :=
      h.settle (h.noReader (.inr hsome)) (hsettles hsome)
    have hexits := hsettled.exits rfl (.inl rfl) (.inr rfl)
    refine ⟨hexits.same ⟨SameSession.note _ hquiet, rfl, rfl, rfl, rfl⟩, ⟨ha.pinger, ha.tasks⟩,
      fun he => ?_⟩
    rw [(h.lost hsome).1] at he
    exact absurd he (by simp)

theorem keeps_openRaises (h : Opens w) (ha : Armed w)
    (hsettles : (w.session.call = none ∧ w.session.ended = false) ∨ w.session.lost.isSome →
      Settles w w.session) : Keeps w w.openRaises := by
  unfold World.openRaises
  dsimp only
  split
  · rename_i hcond
    simp only [Bool.and_eq_true, Option.isNone_iff_eq_none, Bool.not_eq_true'] at hcond
    have hs := hsettles (.inl hcond)
    have hended : (w.session.abort (.closed "the open ended before its first call")).ended = true := by
      rw [abort_eq, hcond.1]
      rfl
    have hcancelling := (abort_fields w.session
      (.closed "the open ended before its first call")).2.1
    have haborted := h.abort (.closed "the open ended before its first call") fun _ => hs
    have hdone := keeps_openDone haborted (ha.abort _) (fun _ hb hc => hcancelling.trans (hs hb hc))
      (.inr hended)
    refine ⟨hdone.opens, hdone.armed, fun he => ?_⟩
    rw [hcond.2] at he
    exact absurd he (by simp)
  · rename_i hcond
    refine keeps_openDone h ha (fun hl => hsettles (.inr hl)) ?_
    by_contra hnot
    rw [not_or, Bool.not_eq_true, Option.isSome_eq_false_iff, Bool.not_eq_true] at hnot
    exact hcond (by rw [hnot.1, hnot.2]; rfl)

theorem leaveBegin_eq (w : World) :
    w.leaveBegin = { w with beginCancelled := w.leaveBegin.beginCancelled } ∧
      (w.begins = .fresh ∨ w.begins = .follow → w.leaveBegin.beginCancelled = true) := by
  unfold World.leaveBegin
  split
  · exact ⟨rfl, fun _ => rfl⟩
  · rename_i hnot
    refine ⟨rfl, ?_⟩
    rintro (hb | hb)
    · exact absurd (by rw [hb]; decide) hnot
    · exact absurd (by rw [hb]; decide) hnot

/-- `open` goes on, or raises, and leaves `_begin` where it stands: cancelled
there, it makes no call of its own. -/
theorem Opens.leaves (h : Opens w) {s : Session} {o : OpenStage}
    (hraised : Opens { w with session := s, opener := o, begins := .raised })
    (hcall : s.call = w.session.call) (hreturned : w.begins = .returned → s.ready.isSome)
    (ho : o = .aborting ∨ o = .raised) :
    Opens { w.leaveBegin with session := s, opener := o } := by
  have hnever : ∀ {o' : OpenStage}, o' ≠ .aborting → o' ≠ .raised → o ≠ o' := by
    rintro o' h₁ h₂ rfl
    rcases ho with ho | ho
    · exact h₁ ho
    · exact h₂ ho
  obtain ⟨heq, hcancelled⟩ := leaveBegin_eq w
  generalize w.leaveBegin.beginCancelled = b at heq hcancelled
  rw [heq]
  refine { hraised with unopened := fun hnone => ?_
                        fresh := fun hb => ?_
                        follow := fun hb => ?_
                        waiting := ?_
                        returned := ?_ }
  · have hnone₁ : s.call = none := hnone
    obtain ⟨h₁, h₂, h₃, h₄, -, h₆⟩ := hraised.unopened hnone
    obtain ⟨-, -, -, -, h₅, -⟩ := h.unopened (hcall.symm.trans hnone₁)
    exact ⟨h₁, h₂, h₃, h₄, h₅, h₆⟩
  · refine ⟨hcall.trans (h.fresh hb).1, fun hc => ?_⟩
    have hc₁ : b = false := hc
    rw [hcancelled (.inl hb)] at hc₁
    exact absurd hc₁ (by simp)
  · refine ⟨hcall.trans (h.follow hb).1, (h.follow hb).2.1, fun hc => ?_⟩
    have hc₁ : b = false := hc
    rw [hcancelled (.inr hb)] at hc₁
    exact absurd hc₁ (by simp)
  · refine ⟨?_, fun hw => ?_⟩
    · rintro (hw | hw)
      · exact absurd hw (hnever nofun nofun)
      · exact absurd hw (hnever nofun nofun)
    · exact absurd hw (hnever nofun nofun)
  · rintro (hb | hr)
    · exact hreturned hb
    · exact absurd hr (hnever nofun nofun)

theorem openRaises_fields (w : World) : w.openRaises.session.call = w.session.call ∧
    w.openRaises.session.ready = w.session.ready := by
  have hdone : ∀ s : Session, (World.openDone s).call = s.call ∧ (World.openDone s).ready = s.ready := by
    intro s
    unfold World.openDone
    dsimp only
    split
    · exact ⟨rfl, rfl⟩
    · exact ⟨rfl, rfl⟩
  unfold World.openRaises
  dsimp only
  split
  · obtain ⟨hready, -, hcall, -⟩ := abort_fields w.session
      (.closed "the open ended before its first call")
    exact ⟨(hdone _).1.trans hcall, (hdone _).2.trans hready⟩
  · exact ⟨(hdone _).1, (hdone _).2⟩

/-- The caller of `open` is cancelled. -/
theorem keeps_openLeft (h : Opens w) (ha : Armed w) : Keeps w w.leaveBegin.openRaises := by
  obtain ⟨hcall, hready⟩ := openRaises_fields w
  have hraises : Keeps { w with begins := .raised } (World.openRaises { w with begins := .raised }) :=
    keeps_openRaises h.raises ⟨ha.pinger, ha.tasks⟩ fun _ => by
      rintro (hb | hb)
      · exact absurd hb (by simp)
      · exact absurd hb (by simp)
  have heq : w.leaveBegin.openRaises =
      { w.leaveBegin with session := w.openRaises.session, opener := .raised } := by
    rw [(leaveBegin_eq w).1]
    rfl
  rw [heq]
  refine ⟨h.leaves hraises.opens hcall (fun hb => ?_) (.inr rfl), ?_, hraises.stays⟩
  · rw [hready]
    exact h.returned (.inl hb)
  · rw [(leaveBegin_eq w).1]
    exact ⟨hraises.armed.pinger, hraises.armed.tasks⟩

/-- The timeout of `open`. -/
theorem keeps_openTimeout (h : Opens w) (ha : Armed w) (hopener : w.opener = .waiting)
    (hreturned : w.begins ≠ .returned) (hraised : w.begins ≠ .raised) :
    Keeps w { w.leaveBegin with
      session := w.leaveBegin.session.abort (.timeout "answer to Open"), opener := .aborting } := by
  obtain ⟨-, -, hcall, herror⟩ := abort_fields w.session (.timeout "answer to Open")
  have haborted := h.raises.abort (.timeout "answer to Open") fun _ => by
    rintro (hb | hb)
    · exact absurd hb (by simp)
    · exact absurd hb (by simp)
  have haborting : Opens { w with session := w.session.abort (.timeout "answer to Open")
                                  opener := .aborting, begins := .raised } := by
    refine { haborted with opening := ⟨fun _ => .inr rfl, fun _ => haborted.opening.2 (.inl hopener)⟩
                           waiting := ⟨?_, fun hw => absurd hw (by simp)⟩
                           returned := ?_
                           exited := ?_
                           aborting := fun _ => herror }
    · rintro (hw | hw)
      · exact absurd hw (by simp)
      · exact absurd hw (by simp)
    · rintro (hb | hr)
      · exact absurd hb (by simp)
      · exact absurd hr (by simp)
    · rintro (hr | hr)
      · exact absurd hr (by simp)
      · exact absurd hr (by simp)
  have hleaves := h.leaves haborting hcall (fun hb => absurd hb hreturned) (.inl rfl)
  have hsession : w.leaveBegin.session = w.session := by rw [(leaveBegin_eq w).1]
  rw [hsession]
  refine ⟨hleaves, ?_, staysEnded_abort h _ fun he hnone => ?_⟩
  · rw [(leaveBegin_eq w).1]
    exact ⟨(ha.abort _).pinger, (ha.abort _).tasks⟩
  · -- A session that ended before its first call was given up: `_begin` still reads its target.
    obtain ⟨-, -, -, -, hbegins, -⟩ := h.unopened hnone
    rcases hbegins with hb | hb | hb
    · exact absurd hb (h.waiting.2 hopener)
    · exact (h.fresh hb).2 (h.waiting.1 (.inl hopener)) he
    · exact absurd hb hraised

theorem keeps_openStep {e : World.OpenEnd} (h : Opens w) (ha : Armed w)
    (hstep : w.openStep e = some w') : Keeps w w' := by
  have haborting : w.opener = .aborting → ¬((w.session.call = none ∧ w.session.ended = false) ∨
      w.session.lost.isSome) := by
    intro ho
    have herror := h.aborting ho
    rintro (⟨hcall, hended⟩ | hlost)
    · obtain ⟨-, -, -, -, -, hgivenUp⟩ := h.unopened hcall
      rw [hgivenUp (.inr herror)] at hended
      exact absurd hended (by simp)
    · obtain ⟨-, -, hnone, -⟩ := h.lost hlost
      rw [hnone] at herror
      exact absurd herror (by simp)
  unfold World.openStep at hstep
  split at hstep
  · split at hstep
    · exact absurd hstep (by simp)
    split at hstep
    · rename_i hbegins
      obtain rfl := Option.some.inj hstep
      have hready := h.returned (.inl hbegins)
      have hopened := h.call_of_ready hready
      rw [not_or, Bool.not_eq_true, Option.isSome_eq_false_iff, Option.isNone_iff_eq_none] at hopened
      have hcall : w.session.call.isSome := Option.isSome_iff_ne_none.2 hopened.1
      have hdone : World.openDone w.session = { w.session with opening := false } := by
        unfold World.openDone
        dsimp only
        rw [hopened.2]
      have hquiet : Happened.Quiet .openReturned := trivial
      have hexits := h.exits hopened.2 (.inr ⟨rfl, hready⟩) (.inl hcall)
      rw [hdone]
      exact ⟨hexits.same ⟨SameSession.note _ hquiet, rfl, rfl, rfl, rfl⟩, ⟨ha.pinger, ha.tasks⟩,
        fun he => ⟨he, rfl⟩⟩
    split at hstep
    · rename_i hbegins
      obtain rfl := Option.some.inj hstep
      refine keeps_openRaises h ha fun _ => ?_
      rintro (hb | hb)
      · exact absurd (hbegins.symm.trans hb) (by simp)
      · exact absurd (hbegins.symm.trans hb) (by simp)
    · exact absurd hstep (by simp)
  · split at hstep
    · exact absurd hstep (by simp)
    rename_i hguard
    rw [not_or, not_not, not_or] at hguard
    obtain rfl := Option.some.inj hstep
    exact keeps_openTimeout h ha hguard.1 hguard.2.1 hguard.2.2
  · split at hstep
    · exact absurd hstep (by simp)
    rename_i hguard
    rw [not_or, not_not] at hguard
    obtain rfl := Option.some.inj hstep
    exact keeps_openRaises h ha fun hor => absurd hor (haborting hguard.1)
  · split at hstep
    · obtain rfl := Option.some.inj hstep
      exact keeps_openLeft h ha
    split at hstep
    · rename_i hopener
      obtain rfl := Option.some.inj hstep
      exact keeps_openRaises h ha fun hor => absurd hor (haborting hopener)
    · exact absurd hstep (by simp)

end Sdk

end Tensorplate
