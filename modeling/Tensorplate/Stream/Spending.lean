import Tensorplate.Stream.Credit

/-!
# No input the client wrote is refused

The client's own steps keep the accounts: an event it reads replaces one
report by a later one, an input `_fits` admits has room in the credit, and
the gate keeps that room for it until it is written. So over every run of
the two sides the server has room for all that is on its way.
-/

namespace Tensorplate

namespace Stream

open Serving Lib Window

namespace Exchange

variable {x x' : Exchange} {w' : Sdk.World} {c : InputCredit}

/-! ## Reading -/

/-- What an event on its way to the client names. -/
theorem named_of_pending {event : Notice} {a : ℕ} {credit : Sdk.InputCredit}
    (he : event ∈ x.pending) (hc : event.credit? = some (a, credit)) : a = 0 ∨ a ∈ x.named := by
  cases event with
  | ready credit' => exact .inl (Prod.mk.inj (Option.some.inj hc)).1.symm
  | accepted sequence credit' =>
    obtain ⟨rfl, -⟩ := Prod.mk.inj (Option.some.inj hc)
    right
    rcases List.mem_append.1 he with hwire | hqueue
    · obtain ⟨p, hp, heq⟩ := List.mem_map.1 hwire
      refine List.mem_append_left _ (List.mem_append_right _ (List.mem_filterMap.2 ⟨p, hp, ?_⟩))
      rw [heq]
      rfl
    · exact List.mem_append_right _ (List.mem_filterMap.2 ⟨_, hqueue, rfl⟩)
  | _ => exact absurd hc (by simp [Notice.credit?])

theorem Lined.named_le (h : Lined x) {event : Notice} {a : ℕ} {credit : Sdk.InputCredit}
    (he : event ∈ x.pending) (hc : event.credit? = some (a, credit)) :
    a ≤ x.client.session.sent := by
  rcases named_of_pending he hc with rfl | hmem
  · exact Nat.zero_le _
  · exact Nat.le_trans (h.bound a hmem) (Nat.le_trans h.last_le h.lastWritten_le)

/-- What the client takes for a report is one. -/
theorem tells_ready {event : Notice} {message : Sdk.Ready} (h : event.tells (.ready message) = true) :
    event = .ready message.inputCredit := by
  cases event with
  | ready credit =>
    have heq : message.inputCredit = credit := by simpa [Notice.tells] using h
    rw [heq]
  | _ => exact absurd h (by simp [Notice.tells])

theorem tells_accepted {event : Notice} {sequence : ℕ} {credit : Sdk.InputCredit}
    (h : event.tells (.accepted sequence credit) = true) : event = .accepted sequence credit := by
  cases event with
  | accepted sequence' credit' =>
    obtain ⟨rfl, rfl⟩ : sequence' = sequence ∧ credit' = credit := by simpa [Notice.tells] using h
    rfl
  | _ => exact absurd h (by simp [Notice.tells])

/-- **The client has read the next event**, and its report if it was one. -/
theorem Kept.learns {sequence : ℕ} {event : Notice} {rest : List (ℕ × Notice)} (h : Kept x)
    (hnext : x.toClient = (sequence, event) :: rest) (ho : Sdk.Ordered w')
    (htasks : w'.tasks = x.client.tasks) (hsent : w'.session.sent = x.client.session.sent)
    (hsegments : w'.session.sendsSegments = x.client.session.sendsSegments)
    (hlast : w'.session.lastInput = x.client.session.lastInput)
    (hunready : w'.session.ready = none → x.client.session.ready = none ∧
      w'.session.accepted = x.client.session.accepted ∧ w'.session.credit = x.client.session.credit)
    (hawaits : x.awaitingOpen = true → w'.session.ready = none)
    (hunaccepted : w'.session.unaccepted = after w'.session.accepted x.written)
    (hown : w'.session.accepted = x.client.session.accepted ∨
      event.named = some w'.session.accepted)
    (hclient : ∀ e, x.slot.entry = some e → w'.session.credit.bytesLimit = 0 ∨
      Told e.credit x.uncharged x.written w'.session.accepted w'.session.credit) :
    Kept { x with
      client := w', toClient := rest
      heard := x.heard ++ (event.named.map fun a => (a, x.lastWritten)).toList } := by
  have hl := h.even.lined
  have hnamed : named { x with
      client := w', toClient := rest
      heard := x.heard ++ (event.named.map fun a => (a, x.lastWritten)).toList } = x.named := by
    unfold named
    rw [hnext]
    rcases hname : event.named with - | a
    · simp [hname]
    · simp [hname]
  have hpending : ∀ e ∈ pending { x with
      client := w', toClient := rest
      heard := x.heard ++ (event.named.map fun a => (a, x.lastWritten)).toList }, e ∈ x.pending := by
    intro e he
    rcases List.mem_append.1 he with hwire | hqueue
    · refine List.mem_append_left _ ?_
      rw [hnext]
      exact List.mem_cons_of_mem _ hwire
    · exact List.mem_append_right _ hqueue
  refine ⟨⟨ho, fun n b hb => h.even.paid n b (htasks ▸ hb), fun hready => ?_, fun hawait => ?_,
    h.even.filed, ?_, fun e he => ?_⟩, h.deaf⟩
  · obtain ⟨hready, haccepted, hcredit⟩ := hunready hready
    have hun := h.even.unready hready
    exact ⟨hun.written, haccepted.trans hun.accepted, hcredit.trans hun.credit,
      fun n => by rw [htasks]; exact hun.cleared n⟩
  · obtain ⟨-, hnone, hentry⟩ := h.even.awaiting hawait
    exact ⟨hawaits hawait, fun e he => hnone e (hpending e he), hentry⟩
  · refine ⟨hl.rising, fun p hp => ?_, hl.sizes, hunaccepted, hlast.trans hl.lastInput, hl.taken,
      hnamed.symm ▸ hl.order, hnamed.symm ▸ hl.bound, ?_, fun p hp => ?_⟩
    · rw [hsent]
      exact hl.sent p hp
    · show w'.session.accepted = 0 ∨ w'.session.accepted ∈ List.map Prod.fst
        (x.heard ++ (event.named.map fun a => (a, x.lastWritten)).toList)
      rw [List.map_append]
      rcases hown with heq | hname
      · rw [heq]
        exact hl.own.imp id (List.mem_append_left _)
      · rw [hname]
        exact .inr (List.mem_append_right _ (List.mem_singleton_self _))
    · rcases List.mem_append.1 hp with hold | hnew
      · exact hl.heard p hold
      · obtain ⟨a, hname, rfl⟩ := Option.map_eq_some_iff.1 (Option.mem_toList.1 hnew)
        refine Nat.le_trans (hl.bound a ?_) hl.last_le
        refine List.mem_append_left _ (List.mem_append_right _ (List.mem_filterMap.2
          ⟨(sequence, event), ?_, hname⟩))
        rw [hnext]
        exact List.mem_cons_self
  · have hb := h.even.balanced e he
    refine ⟨hb.fine, ?_, hb.room, fun event he => hb.pending event (hpending event he), hclient e he,
      fun n b hc => hb.cleared n b (htasks ▸ hc)⟩
    unfold inputKind
    rw [hsegments]
    exact hb.kind

theorem reads_eq {body : Sdk.ServerBody} (hs : x.reads body = some x') :
    ∃ sequence event rest w', x.toClient = (sequence, event) :: rest ∧ event.tells body = true ∧
      x.client.step (.read ⟨sequence, body⟩) = some w' ∧ x' = { x with
        client := w', toClient := rest
        heard := x.heard ++ (event.named.map fun a => (a, x.lastWritten)).toList } := by
  unfold Exchange.reads at hs
  split at hs
  · exact absurd hs (by simp)
  rename_i sequence event rest hnext
  split at hs
  · exact absurd hs (by simp)
  rename_i hsays
  obtain ⟨w', hstep, rfl⟩ := Option.map_eq_some_iff.1 hs
  refine ⟨sequence, event, rest, w', hnext, by simpa using hsays, hstep, ?_⟩
  cases event with
  | accepted named credit => rfl
  | _ => exact congrArg (Exchange.mk _ _ _ _ _ _ _ _ _ _ _) (List.append_nil _).symm

/-- **The client reads the next event.** -/
theorem Kept.reads {body : Sdk.ServerBody} (h : Kept x) (hs : x.reads body = some x') : Kept x' := by
  obtain ⟨sequence, event, rest, w', hnext, hsaid, hstep, rfl⟩ := reads_eq hs
  obtain ⟨hreads, hsent, htasks⟩ : Sdk.Learns x.client body w' := Sdk.read_learns hstep
  have hl := h.even.lined
  have hhere : event ∈ x.pending := by
    refine List.mem_append_left _ (List.mem_map.2 ⟨(sequence, event), ?_, rfl⟩)
    rw [hnext]
    exact List.mem_cons_self
  generalize hp : w'.session.purse = p at hreads
  have hready : w'.session.ready = p.ready := congrArg Sdk.Purse.ready hp
  have hcredit : w'.session.credit = p.credit := congrArg Sdk.Purse.credit hp
  have hunaccepted : w'.session.unaccepted = p.unaccepted := congrArg Sdk.Purse.unaccepted hp
  have hlast : w'.session.lastInput = p.lastInput := congrArg Sdk.Purse.lastInput hp
  have haccepted : w'.session.accepted = p.accepted := congrArg Sdk.Purse.accepted hp
  have hsegments : w'.session.sendsSegments = p.sendsSegments := congrArg Sdk.Purse.sendsSegments hp
  have hordered := h.even.client.step hstep
  cases hreads with
  | other =>
    refine h.learns hnext hordered htasks hsent hsegments hlast (fun hnone => ?_) (fun hawait => ?_)
      ?_ (.inl haccepted) fun e he => ?_
    · exact ⟨hready.symm.trans hnone, haccepted, hcredit⟩
    · exact hready.trans (h.even.awaiting hawait).1
    · rw [hunaccepted, haccepted]
      exact hl.unaccepted
    · rw [hcredit, haccepted]
      exact (h.even.balanced e he).client
  | @ready message hnone =>
    obtain rfl := tells_ready hsaid
    have hun := h.even.unready hnone
    refine h.learns hnext hordered htasks hsent hsegments hlast (fun hnone => ?_) (fun hawait => ?_)
      ?_ (.inl haccepted) fun e he => ?_
    · rw [hready] at hnone
      exact absurd hnone (by simp)
    · have hcontra := (h.even.awaiting hawait).2.1 _ hhere
      exact absurd hcontra (by simp [Notice.credit?])
    · rw [hunaccepted, haccepted]
      exact hl.unaccepted
    · right
      rw [hcredit, haccepted, show x.client.session.purse.accepted = 0 from hun.accepted]
      exact (h.even.balanced e he).pending _ hhere 0 message.inputCredit rfl
  | @accepted named credit hsome hle =>
    obtain rfl := tells_accepted hsaid
    refine h.learns hnext hordered htasks hsent hsegments hlast (fun hnone => ?_) (fun hawait => ?_)
      ?_ (.inr (congrArg some haccepted.symm)) fun e he => ?_
    · rw [hready] at hnone
      exact absurd hnone hsome
    · have hcontra := (h.even.awaiting hawait).2.1 _ hhere
      exact absurd hcontra (by simp [Notice.credit?])
    · rw [hunaccepted, haccepted]
      show after named x.client.session.unaccepted = _
      rw [hl.unaccepted]
      exact after_after hle x.written
    · right
      rw [hcredit, haccepted]
      exact (h.even.balanced e he).pending _ hhere named credit rfl

/-! ## The client's own steps -/

theorem carries_quiet {bytes : ℕ} {more : List Sdk.Happened} (h : ∀ y ∈ more, y.crosses = false)
    (x : Exchange) : more.foldl (carries bytes) x = x := by
  induction more generalizing x with
  | nil => rfl
  | cons y rest ih =>
    have hy := h y List.mem_cons_self
    have hsame : carries bytes x y = x := by
      cases y with
      | connected call => exact absurd hy (by simp [Sdk.Happened.crosses])
      | wrote call sequence body => exact absurd hy (by simp [Sdk.Happened.crosses])
      | _ => rfl
    rw [List.foldl_cons, hsame]
    exact ih (fun z hz => h z (List.mem_cons_of_mem _ hz)) x

/-- What the client wrote in a step is on its way. -/
theorem acts_eq {a : Sdk.World.Action} (hs : x.acts a = some x') :
    permits x.client a = true ∧ ∃ w', x.client.step a = some w' ∧
      ∀ more, w'.session.log = x.client.session.log ++ more →
        x' = more.foldl (carries (bytesOf x.client a)) { x with client := w' } := by
  unfold Exchange.acts at hs
  split at hs
  · exact absurd hs (by simp)
  rename_i hpermits
  obtain ⟨w', hstep, rfl⟩ := Option.map_eq_some_iff.1 hs
  refine ⟨by simpa using hpermits, w', hstep, fun more hlog => ?_⟩
  rw [hlog, List.drop_left]

/-- **A step of the client that writes no input** and clears none. -/
theorem Kept.spares {toServer : List Sent} (h : Kept x) (ho : Sdk.Ordered w')
    (hpurse : w'.session.purse = x.client.session.purse)
    (hsent : x.client.session.sent ≤ w'.session.sent)
    (hpaid : ∀ n b, Sdk.World.chargeOf (w'.tasks n).work = some b → 0 < b)
    (hcleared : ∀ n b, (w'.tasks n).cleared = some b → (x.client.tasks n).cleared = some b)
    (hinputs : inputsOf toServer = inputsOf x.toServer) :
    Kept { x with client := w', toServer := toServer } := by
  have hready : w'.session.ready = x.client.session.ready := congrArg Sdk.Purse.ready hpurse
  have hcredit : w'.session.credit = x.client.session.credit := congrArg Sdk.Purse.credit hpurse
  have hun : w'.session.unaccepted = x.client.session.unaccepted :=
    congrArg Sdk.Purse.unaccepted hpurse
  have hlast : w'.session.lastInput = x.client.session.lastInput :=
    congrArg Sdk.Purse.lastInput hpurse
  have haccepted : w'.session.accepted = x.client.session.accepted :=
    congrArg Sdk.Purse.accepted hpurse
  have hsegments : w'.session.sendsSegments = x.client.session.sendsSegments :=
    congrArg Sdk.Purse.sendsSegments hpurse
  have haway : uncharged { x with client := w', toServer := toServer } = x.uncharged :=
    congrArg (x.lost ++ ·) hinputs
  have hwritten : written { x with client := w', toServer := toServer } = x.written :=
    congrArg (x.charged ++ ·) haway
  have hl := h.even.lined
  refine ⟨⟨ho, hpaid, fun hnone => ?_, fun hawait => ?_, h.even.filed, ?_, fun e he => ?_⟩, h.deaf⟩
  · have hunready := h.even.unready (hready.symm.trans hnone)
    refine ⟨hwritten.trans hunready.written, haccepted.trans hunready.accepted,
      hcredit.trans hunready.credit, fun n => ?_⟩
    by_contra hne
    obtain ⟨b, hb⟩ := Option.ne_none_iff_exists'.1 hne
    have hold := hcleared n b hb
    rw [hunready.cleared n] at hold
    exact absurd hold (by simp)
  · obtain ⟨hnone, hpending, hentry⟩ := h.even.awaiting hawait
    exact ⟨hready.trans hnone, hpending, hentry⟩
  · refine ⟨?_, ?_, ?_, ?_, ?_, hl.taken, hl.order, hl.bound, ?_, hl.heard⟩
    · rw [hwritten]
      exact hl.rising
    · rw [hwritten]
      exact fun p hp => Nat.le_trans (hl.sent p hp) hsent
    · rw [hwritten]
      exact hl.sizes
    · rw [hwritten]
      show w'.session.unaccepted = after w'.session.accepted x.written
      rw [hun, haccepted]
      exact hl.unaccepted
    · exact hlast.trans (hl.lastInput.trans (congrArg last hwritten).symm)
    · show w'.session.accepted = 0 ∨ w'.session.accepted ∈ x.heard.map Prod.fst
      rw [haccepted]
      exact hl.own
  · have hb := h.even.balanced e he
    refine ⟨hb.fine, ?_, ?_, fun event hevent a credit hc => ?_, ?_, fun n b hc => ?_⟩
    · show _ = if w'.session.sendsSegments = true then SessionInputKind.text else .audio
      rw [hsegments]
      exact hb.kind
    · rw [haway]
      exact hb.room
    · rw [haway, hwritten]
      exact hb.pending event hevent a credit hc
    · rw [haway, hwritten]
      show w'.session.credit.bytesLimit = 0 ∨
        Told e.credit x.uncharged x.written w'.session.accepted w'.session.credit
      rw [hcredit, haccepted]
      exact hb.client
    · rw [haway]
      exact hb.cleared n b (hcleared n b hc)

/-- **A call is made**: everything of the one before is gone. -/
theorem Kept.dials {call sequence bytes : ℕ} (h : Kept x) (ho : Sdk.Ordered w')
    (hd : Sdk.Dials x.client w') :
    Kept ([Sdk.Happened.connected call, .wrote call sequence .opening].foldl (carries bytes)
      { x with client := w' }) := by
  have hun := h.even.unready hd.unready
  have hl := h.even.lined
  have hready : w'.session.ready = none :=
    (congrArg Sdk.Purse.ready hd.purse).trans hd.unready
  have haccepted : w'.session.accepted = 0 :=
    (congrArg Sdk.Purse.accepted hd.purse).trans hun.accepted
  have hunaccepted : w'.session.unaccepted = [] := by
    refine (congrArg Sdk.Purse.unaccepted hd.purse).trans (hl.unaccepted.trans ?_)
    rw [hun.written]
    rfl
  have hlast : w'.session.lastInput = 0 := by
    refine (congrArg Sdk.Purse.lastInput hd.purse).trans (hl.lastInput.trans ?_)
    show last x.written = 0
    rw [hun.written]
    rfl
  have hnil : ∀ {α : Type} {p : α → Prop}, ∀ a ∈ ([] : List α), p a :=
    fun _ ha => absurd ha List.not_mem_nil
  refine ⟨⟨ho, fun n b hb => h.even.paid n b (hd.tasks ▸ hb), fun _ => ?_, fun _ => ?_, filed_nil, ?_,
    fun e he => ?_⟩, fun hne => absurd rfl hne⟩
  · exact ⟨rfl, haccepted, (congrArg Sdk.Purse.credit hd.purse).trans hun.credit,
      fun n => (congrArg (fun tasks => (tasks n).cleared) hd.tasks).trans (hun.cleared n)⟩
  · exact ⟨hready, hnil, rfl⟩
  · exact ⟨⟨List.Pairwise.nil, hnil⟩, hnil, hnil, hunaccepted, hlast, rfl, List.Pairwise.nil, hnil,
      .inl haccepted, hnil⟩
  · change (none : Option Entry) = some e at he
    exact absurd he (by simp)

/-- **`_fits` admits an input**: there is room for it. -/
theorem Balanced.fits {b : ℕ} (hb : Balanced x c) (hl : Lined x)
    (hfits : x.client.session.fits b = true) (hpos : 0 < b) : Room c x.uncharged b 1 := by
  unfold Sdk.Session.fits at hfits
  obtain ⟨hbytes, hsegments⟩ := Bool.and_eq_true_iff.1 hfits
  have hbytes := of_decide_eq_true hbytes
  rcases hb.client with hzero | ht
  · omega
  have hheld := ht.covers.bytes
  have hwaits := ht.covers.places
  have hlimit := ht.limit
  have hplaces := ht.places
  rw [← hl.unaccepted] at hheld hwaits
  unfold total at hheld
  refine ⟨?_, fun hkind => ?_⟩
  · unfold total
    omega
  · have htext : x.client.session.sendsSegments = true := by
      by_contra hnot
      have hsame := hb.kind.symm.trans hkind
      unfold inputKind at hsame
      rw [if_neg hnot] at hsame
      exact absurd hsame (by simp)
    rw [htext] at hsegments
    have hlt : x.client.session.credit.segmentsUsed + x.client.session.unaccepted.length <
        x.client.session.credit.segmentsLimit := by simpa using hsegments
    omega

/-- Who was admitted is behind the gate. -/
theorem inGate_of_cleared {t : Sdk.Task} {b : ℕ} (h : t.cleared = some b) : t.inGate = true := by
  unfold Sdk.Task.cleared at h
  split at h
  · rename_i offset hstage
    unfold Sdk.Task.inGate
    rw [hstage]
    cases hwork : t.work with
    | sendAudio bytes samples => rfl
    | sendText bytes => rfl
    | _ => exact absurd (hwork ▸ h) (by simp [Sdk.World.chargeOf])
  · exact absurd h (by simp)

theorem chargeOf_of_cleared {t : Sdk.Task} {b : ℕ} (h : t.cleared = some b) :
    Sdk.World.chargeOf t.work = some b := by
  unfold Sdk.Task.cleared at h
  split at h
  · exact h
  · exact absurd h (by simp)

theorem Kept.clears {n b : ℕ} (h : Kept x) (ho : Sdk.Ordered w') (hc : Sdk.Clears x.client n b w') :
    Kept { x with client := w' } := by
  have hpos := h.even.paid n b hc.charge
  have hl := h.even.lined
  refine ⟨⟨ho, fun m a hm => h.even.paid m a (hc.work m ▸ hm), fun hnone => ?_, fun hawait => ?_,
    h.even.filed, ?_, fun e he => ?_⟩, h.deaf⟩
  · -- Before Ready the credit has no room for anything.
    have hun := h.even.unready (hc.session ▸ hnone)
    have hfits := hc.fits
    unfold Sdk.Session.fits at hfits
    rw [hun.credit] at hfits
    have hle := of_decide_eq_true (Bool.and_eq_true_iff.1 hfits).1
    dsimp only at hle
    omega
  · obtain ⟨hnone, hpending, hentry⟩ := h.even.awaiting hawait
    exact ⟨hc.session.symm ▸ hnone, hpending, hentry⟩
  · exact { hl with
      sent := by rw [hc.session]; exact hl.sent
      unaccepted := by rw [hc.session]; exact hl.unaccepted
      lastInput := by rw [hc.session]; exact hl.lastInput
      own := by rw [hc.session]; exact hl.own }
  · have hb := h.even.balanced e he
    refine ⟨hb.fine, ?_, hb.room, hb.pending, ?_, fun m a hm => ?_⟩
    · unfold inputKind
      rw [hc.session]
      exact hb.kind
    · rw [hc.session]
      exact hb.client
    · rcases hc.cleared m a hm with hold | ⟨-, rfl⟩
      · exact hb.cleared m a hold
      · exact hb.fits hl hc.fits hpos

/-- **An input is written.** -/
theorem Kept.spends {n b : ℕ} {body : Sdk.ClientBody} (h : Kept x) (ho : Sdk.Ordered w')
    (hs : Sdk.Spends x.client n b w') (hbody : body.isCharged = true) :
    Kept { x with
      client := w', toServer := x.toServer ++ [⟨x.client.session.sent + 1, body, b⟩] } := by
  have hl := h.even.lined
  have hpos := h.even.paid n b (chargeOf_of_cleared hs.cleared)
  have haccepted : w'.session.accepted = x.client.session.accepted :=
    congrArg Sdk.Purse.accepted hs.purse
  have hcredit : w'.session.credit = x.client.session.credit := congrArg Sdk.Purse.credit hs.purse
  have hready : w'.session.ready = x.client.session.ready := congrArg Sdk.Purse.ready hs.purse
  have hinputs : inputsOf (x.toServer ++ [⟨x.client.session.sent + 1, body, b⟩]) =
      inputsOf x.toServer ++ [(x.client.session.sent + 1, b)] := by
    unfold inputsOf
    rw [List.filterMap_append]
    cases body with
    | audio sampleOffset samples short => rfl
    | textSegment segmentId => rfl
    | _ => exact absurd hbody (by simp [Sdk.ClientBody.isCharged])
  have haway : uncharged { x with
      client := w', toServer := x.toServer ++ [⟨x.client.session.sent + 1, body, b⟩] } =
      x.uncharged ++ [(x.client.session.sent + 1, b)] := by
    unfold uncharged
    rw [hinputs, List.append_assoc]
  have hwritten : written { x with
      client := w', toServer := x.toServer ++ [⟨x.client.session.sent + 1, body, b⟩] } =
      x.written ++ [(x.client.session.sent + 1, b)] := by
    unfold written
    rw [haway, List.append_assoc]
  -- The client has read Ready, or nothing would be cleared.
  have hread : x.client.session.ready ≠ none := fun hnone => by
    have hcleared := hs.cleared
    rw [(h.even.unready hnone).cleared n] at hcleared
    exact absurd hcleared (by simp)
  have hle : x.client.session.accepted ≤ x.client.session.sent :=
    Nat.le_trans hl.accepted_le (Nat.le_trans hl.last_le hl.lastWritten_le)
  refine ⟨⟨ho, fun m a hm => h.even.paid m a (hs.work m ▸ hm),
    fun hnone => absurd (hready.symm.trans hnone) hread,
    fun hawait => absurd (h.even.awaiting hawait).1 hread, h.even.filed, ?_, fun e he => ?_⟩, h.deaf⟩
  · refine ⟨?_, fun p hp => ?_, fun p hp => ?_, ?_, ?_, hl.taken, hl.order, hl.bound, ?_, hl.heard⟩
    · rw [hwritten]
      exact hl.rising.concat (fun p hp => Nat.lt_succ_of_le (hl.sent p hp)) (Nat.succ_pos _)
    · rw [hwritten] at hp
      rw [hs.sent]
      rcases List.mem_append.1 hp with hold | hnew
      · exact Nat.le_succ_of_le (hl.sent p hold)
      · rw [List.mem_singleton.1 hnew]
    · rw [hwritten] at hp
      rcases List.mem_append.1 hp with hold | hnew
      · exact hl.sizes p hold
      · rw [List.mem_singleton.1 hnew]
        exact hpos
    · rw [hwritten]
      show w'.session.unaccepted = after w'.session.accepted _
      rw [haccepted, after_concat (Nat.lt_succ_of_le hle), ← hl.unaccepted]
      exact congrArg Sdk.Purse.unaccepted hs.purse
    · refine (congrArg Sdk.Purse.lastInput hs.purse).trans ?_
      show x.client.session.sent + 1 = last (written _)
      rw [hwritten, last_concat]
    · show w'.session.accepted = 0 ∨ w'.session.accepted ∈ x.heard.map Prod.fst
      rw [haccepted]
      exact hl.own
  · have hb := h.even.balanced e he
    have hroom := hb.cleared n b hs.cleared
    refine ⟨hb.fine, ?_, ?_, fun event hevent a credit hc => ?_, ?_, fun m a hm => ?_⟩
    · show _ = if w'.session.sendsSegments = true then SessionInputKind.text else .audio
      rw [show w'.session.sendsSegments = x.client.session.sendsSegments from
        congrArg Sdk.Purse.sendsSegments hs.purse]
      exact hb.kind
    · have hbytes := hroom.bytes
      rw [haway]
      refine ⟨?_, fun hkind => ?_⟩
      · rw [total_append, total_cons, total_nil]
        omega
      · have hsegments := hroom.segments hkind
        rw [List.length_append, List.length_singleton]
        omega
    · rw [haway, hwritten]
      exact (hb.pending event hevent a credit hc).sends (Nat.lt_succ_of_le (hl.named_le hevent hc))
    · rw [haway, hwritten]
      show w'.session.credit.bytesLimit = 0 ∨ Told e.credit _ _ w'.session.accepted w'.session.credit
      rw [hcredit, haccepted]
      exact hb.client.imp id fun ht => ht.sends (Nat.lt_succ_of_le hle)
    · -- The gate has room for one.
      obtain ⟨hne, hold⟩ := hs.others m a hm
      have hgate := h.even.client.gated m (inGate_of_cleared hold)
      have hgate' := h.even.client.gated n (inGate_of_cleared hs.cleared)
      exact absurd (Option.some.inj (hgate.symm.trans hgate')) hne

/-- **A step of the client other than a read.** -/
theorem Kept.acts {a : Sdk.World.Action} (h : Kept x) (hs : x.acts a = some x') : Kept x' := by
  obtain ⟨hpermits, w', hstep, hlog⟩ := acts_eq hs
  have hnot : ∀ event, a ≠ .read event := fun event heq => by
    subst heq
    exact absurd hpermits (by simp [permits])
  have ho := h.even.client.step hstep
  have hpaid : (∀ n, (w'.tasks n).work = (x.client.tasks n).work) →
      ∀ n b, Sdk.World.chargeOf (w'.tasks n).work = some b → 0 < b := by
    intro hwork n b hb
    rw [hwork] at hb
    exact h.even.paid n b hb
  have hquiet : Sdk.Quiet x.client.session w'.session → x' = { x with client := w' } := by
    intro hq
    obtain ⟨more, hmore, hnone⟩ := hq.log
    rw [hlog more hmore, carries_quiet hnone]
  cases Sdk.budgets_step h.even.client.sound hnot hstep with
  | frugal hf =>
    rw [hquiet hf.session]
    exact h.spares ho hf.session.purse (Nat.le_of_eq hf.session.sent.symm) (hpaid hf.work) hf.cleared
      rfl
  | @calls n work _ hc =>
    rw [hquiet hc.session]
    refine h.spares ho hc.session.purse (Nat.le_of_eq hc.session.sent.symm) (fun m b hb => ?_)
      hc.cleared rfl
    by_cases hm : m = n
    · subst hm
      rw [hc.work] at hb
      cases work with
      | sendAudio bytes samples =>
        obtain rfl := Option.some.inj hb
        have hp : x.client.session.sendsSegments = false ∧ 0 < bytes := by
          simpa [permits] using hpermits
        exact hp.2
      | sendText bytes =>
        obtain rfl := Option.some.inj hb
        have hp : x.client.session.sendsSegments = true ∧ 0 < bytes := by
          simpa [permits] using hpermits
        exact hp.2
      | _ => exact absurd hb (by simp [Sdk.World.chargeOf])
    · rw [hc.others m hm] at hb
      exact h.even.paid m b hb
  | dials hd =>
    obtain ⟨more, call, sequence, hmore, hnone⟩ := hd.log
    rw [hlog _ hmore, List.foldl_append, carries_quiet hnone]
    exact h.dials ho hd
  | mails hm =>
    obtain ⟨call, body, hmore, hbody⟩ := hm.log
    rw [hlog _ hmore]
    refine h.spares ho hm.purse ?_ (hpaid hm.work) hm.cleared ?_
    · rw [hm.sent]
      exact Nat.le_succ _
    · show inputsOf (x.toServer ++ [_]) = _
      unfold inputsOf
      rw [List.filterMap_append]
      cases body with
      | audio sampleOffset samples short => exact absurd hbody (by simp [Sdk.ClientBody.isCharged])
      | textSegment segmentId => exact absurd hbody (by simp [Sdk.ClientBody.isCharged])
      | _ => exact List.append_nil _
  | @clears n b _ hc =>
    rw [hlog [] (by rw [hc.session, List.append_nil])]
    exact h.clears ho hc
  | @spends n b _ hsp =>
    obtain ⟨call, body, hmore, hbody⟩ := hsp.log
    rw [hlog _ hmore]
    have hbytes : bytesOf x.client (.locked n) = b := by
      show (Sdk.World.chargeOf (x.client.tasks n).work).getD 0 = b
      rw [chargeOf_of_cleared hsp.cleared]
      rfl
    rw [hbytes]
    exact h.spends ho hsp hbody

/-! ## Every run -/

section Runs

variable {targets sendsSegments : Bool} {sampleRateHz : ℕ} {target : Sdk.StreamTarget}
  {size : Notice → ℕ} {clock : ℕ → TimePoint}

theorem kept_fresh :
    Kept (fresh (Sdk.World.fresh targets sendsSegments sampleRateHz target) size clock) := by
  have hnil : ∀ {α : Type} {p : α → Prop}, ∀ a ∈ ([] : List α), p a :=
    fun _ ha => absurd ha List.not_mem_nil
  have hcharge : ∀ n b, Sdk.World.chargeOf
      ((Sdk.World.fresh targets sendsSegments sampleRateHz target).tasks n).work = some b → 0 < b :=
    fun n b hb => absurd hb (by simp [Sdk.World.fresh, Sdk.World.chargeOf])
  refine ⟨⟨Sdk.ordered_fresh, hcharge, fun _ => ⟨rfl, rfl, rfl, fun _ => rfl⟩,
    fun _ => ⟨rfl, hnil, rfl⟩, filed_nil, ?_, fun e he => ?_⟩, fun hne => absurd rfl hne⟩
  · exact ⟨⟨List.Pairwise.nil, hnil⟩, hnil, hnil, rfl, rfl, rfl, List.Pairwise.nil, hnil, .inl rfl, hnil⟩
  · change (none : Option Entry) = some e at he
    exact absurd he (by simp)

theorem Kept.step {a : Action} (h : Kept x) (hs : x.step a = some x') : Kept x' := by
  cases a with
  | acts a => exact h.acts hs
  | reads body => exact h.reads hs
  | opens key generation limits budgets initialized => exact h.opens hs
  | refusesOpen => exact h.refusesOpen hs
  | handles refusal => exact h.handles hs
  | manages call =>
    obtain rfl := Option.some.inj hs
    exact h.manages call
  | offers kind bytes replaceKey => exact h.offers hs
  | takes => exact h.takes hs
  | confirms sequence =>
    obtain rfl := Option.some.inj hs
    exact h.confirms sequence
  | elapses readings =>
    obtain rfl := Option.some.inj hs
    exact h.idle rfl rfl

theorem kept_run (hrun : Run step Free
    (fresh (Sdk.World.fresh targets sendsSegments sampleRateHz target) size clock) x) : Kept x :=
  hrun.invariant kept_fresh fun _ _ _ h _ hs => h.step hs

/-- **The credit is never overdrawn.** In every run of a client and its
server, what the server holds with all that was written and not charged is
within the session's limits, and the input it reads next is charged. -/
theorem credit_never_overdrawn {e : Entry} (hrun : Run step Free
      (fresh (Sdk.World.fresh targets sendsSegments sampleRateHz target) size clock) x)
    (he : x.slot.entry = some e) :
    e.credit.heldBytes + (x.uncharged.map Prod.snd).sum ≤ e.credit.budgets.inputCreditBytes ∧
      (e.credit.budgets.inputKind = .text → e.credit.waitingSegments.length + x.uncharged.length ≤
        e.credit.budgets.waitingItems) ∧
      ∀ {sent : Sent} {rest : List Sent}, x.toServer = sent :: rest → sent.body.isCharged = true →
        (e.credit.charge sent.bytes).2 = .ok () := by
  have h := kept_run hrun
  have hb := h.even.balanced e he
  have hbytes := hb.room.bytes
  refine ⟨hbytes, hb.room.segments, fun {sent rest} hnext hinput => ?_⟩
  have haway : x.uncharged = x.lost ++ (sent.sequence, sent.bytes) :: inputsOf rest := by
    unfold uncharged
    rw [hnext, inputsOf_cons, if_pos hinput]
    rfl
  refine hb.fine.charge (h.even.lined.sizes (sent.sequence, sent.bytes) ?_) ?_ fun hkind => ?_
  · refine List.mem_append_right _ ?_
    rw [haway]
    exact List.mem_append_right _ List.mem_cons_self
  · rw [haway, total_append, total_cons] at hbytes
    dsimp only at hbytes
    omega
  · have hsegments := hb.room.segments hkind
    rw [haway, List.length_append, List.length_cons] at hsegments
    omega

/-- Two segments are sent, the first is started before its Accepted is taken,
and the second is on its way. -/
def twoSegments : List Action :=
  [.acts .openCalled, .acts (.beginFresh (.error "") true), .acts (.openWritten true),
   .opens 1 1 SessionLimits.defaults ⟨.text, 8192, 2, 1, 0, ⟨rfl, rfl, rfl, Nat.zero_le _⟩⟩ (.ok ()),
   .takes, .reads (.ready { sessionId := "s", generation := 0, descriptorDigest := ""
                            inputCredit := ⟨0, 8192, 0, 2⟩, outputStallTimeoutMs := 1
                            heartbeatIntervalMs := 1, checked := true
                            maxSegmentTextBytes := 1000, maxSynthesisTextBytes := 4000 }),
   .acts (.openAnswered true), .acts (.openStep .done),
   .acts (.called 0 (.sendText 100)), .acts (.entered 0), .acts (.answered 0), .acts (.credited 0),
   .acts (.locked 0), .acts (.written 0 true), .handles none, .manages .startTextSegment,
   .acts (.called 1 (.sendText 50)), .acts (.entered 1), .acts (.answered 1), .acts (.credited 1),
   .acts (.locked 1), .takes, .reads (.accepted 2 ⟨0, 8192, 0, 2⟩)]

/-- The start of a text session. -/
def textSession : Exchange :=
  fresh (Sdk.World.fresh false true 16000 ⟨"", "", 0, ""⟩) (fun _ => 40) id

theorem twoSegments_ends : (exec step textSession twoSegments).bind
      (fun x => x.slot.entry.map fun e => (e.credit.budgets.inputKind, x.uncharged, x.toServer, x.heard)) =
    some (.text, [(3, 50)], [⟨3, .textSegment 2, 50⟩], [(2, 3)]) := by
  decide +kernel

theorem credit_never_overdrawn_segment : ∃ x e, Run step Free textSession x ∧
    x.slot.entry = some e ∧ x.uncharged = [(3, 50)] ∧
    e.credit.waitingSegments.length + 1 ≤ e.credit.budgets.waitingItems ∧
    (e.credit.charge 50).2 = .ok () := by
  obtain ⟨x, hexec, hrest⟩ := Option.bind_eq_some_iff.1 twoSegments_ends
  obtain ⟨e, he, hread⟩ := Option.map_eq_some_iff.1 hrest
  simp only [Prod.mk.injEq] at hread
  obtain ⟨hkind, haway, hwire, -⟩ := hread
  have hrun : Run step Free textSession x := Run.of_exec hexec
  obtain ⟨-, hsegments, hcharge⟩ := credit_never_overdrawn hrun he
  refine ⟨x, e, hrun, he, haway, ?_, hcharge hwire rfl⟩
  have hroom := hsegments hkind
  rw [haway] at hroom
  exact hroom

/-- **Accepted events name inputs in order.** Each that the client reads
names at least what the one before named and at most the last input written,
so `_take_accepted` refuses none for the sequence it names. -/
theorem accepted_in_order (hrun : Run step Free
      (fresh (Sdk.World.fresh targets sendsSegments sampleRateHz target) size clock) x) :
    (x.heard.map Prod.fst).Pairwise (· ≤ ·) ∧ (∀ p ∈ x.heard, p.1 ≤ p.2) ∧
      ∀ {sequence a : ℕ} {credit : Sdk.InputCredit} {rest : List (ℕ × Notice)},
        x.toClient = (sequence, .accepted a credit) :: rest →
          x.client.session.accepted ≤ a ∧ a ≤ x.client.session.lastInput := by
  have hl := (kept_run hrun).even.lined
  have horder := hl.order
  have hheard := (List.pairwise_append.1 (List.pairwise_append.1 horder).1).1
  refine ⟨hheard, hl.heard, fun {sequence a credit rest} hnext => ?_⟩
  have hwire : a ∈ x.toClient.filterMap fun p => p.2.named := by
    refine List.mem_filterMap.2 ⟨(sequence, .accepted a credit), ?_, rfl⟩
    rw [hnext]
    exact List.mem_cons_self
  refine ⟨?_, ?_⟩
  · rcases hl.own with hzero | hmem
    · rw [hzero]
      exact Nat.zero_le _
    · exact (List.pairwise_append.1 (List.pairwise_append.1 horder).1).2.2 _ hmem _ hwire
  · rw [hl.lastInput]
    exact Nat.le_trans (hl.bound a (List.mem_append_left _ (List.mem_append_right _ hwire)))
      hl.last_le

theorem accepted_in_order_segment : ∃ x, Run step Free textSession x ∧ x.heard = [(2, 3)] ∧
    (x.heard.map Prod.fst).Pairwise (· ≤ ·) ∧ ∀ p ∈ x.heard, p.1 ≤ p.2 := by
  obtain ⟨x, hexec, hrest⟩ := Option.bind_eq_some_iff.1 twoSegments_ends
  obtain ⟨e, -, hread⟩ := Option.map_eq_some_iff.1 hrest
  simp only [Prod.mk.injEq] at hread
  have hrun : Run step Free textSession x := Run.of_exec hexec
  obtain ⟨horder, hbound, -⟩ := accepted_in_order hrun
  exact ⟨x, hrun, hread.2.2.2, horder, hbound⟩

end Runs

end Exchange

end Stream

end Tensorplate
