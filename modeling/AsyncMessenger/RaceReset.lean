import AsyncMessenger.Lib.Run
import AsyncMessenger.RaceTurns

/-!
# A race and a peer reset

Two lossless peers that dial each other at the same time must not take each other for a peer that
was reset, and with nobody calling `mark_down` no message may be dropped.

The code does not live up to that. `do_replace` closes the socket of the attempt it replaces and
asks for `connect_seq` 1, but the connect message of the closed attempt, with `connect_seq` 0, may
still wait to be read on the other side. And where `resetcheck` is off, a connection that stands by
answers an attempt with RETRY_SESSION, without being replaced: it may dial itself before the other
side comes back, and then its attempt has the smaller `connect_seq`.

Runs in which no connect message is judged after its attempt has been given up, and no connection
that stands by is asked to, keep the invariant of the race.

## The meeting

The place where the two can be taken for what they are not is `handle_connect_msg`, where a connect
message of the peer meets the registered connection. `Fair` is the condition there: the messenger
knows its own address, the message is that of an attempt that has not been given up while the
registered connection went on, and that connection does not stand by without `resetcheck`. From this
the verdict can be read off, and it is neither that of a reset nor one that drops messages. The rest
of a pass of the accepted connection was dealt with before.
-/

namespace AsyncMessenger

namespace Encounter

variable {s s' : Encounter} {K : Codec} {flags : CrcFlags}

/-- What the connect message on socket `k` meets at the registered connection `e` is in order: the
side that compares the addresses knows its own, the attempt has not been given up while `e` went on,
and `e` does not stand by without `resetcheck`. -/
structure Fair (s : Encounter) (k : ℕ) (e : Conn Chunk) (peerLess : Bool) : Prop where
  less : peerLess = (s.acceptor k == s.larger)
  current : e.connectSeq = 0 ∨ s.holds k = true
  standby : e.state = .standby → (s.policy (s.acceptor k)).resetcheck = true

/-- A connect message is judged fairly, or is known to be outdated. -/
def Orderly (s : Encounter) : Act → Prop
  | .serve k _ inp => ∀ a e, (s.line k).reception = .serving a →
      a.state = .acceptingWaitConnectMsgAuth → s.reg (s.acceptor k) = some e →
      a.connectMsg.globalSeq < e.peerGlobalSeq ∨ s.Fair k e inp.peerLess
  | _ => True

/-! ## The connect message meets the registered connection

The cases are those of the shape of the registered connection's own socket: an attempt nobody has
answered, one that is answered with WAIT, and the two ends of a session. -/

section Serving

variable {k : ℕ} {a e : Conn Chunk}

/-- The messenger with the larger address has nothing but an attempt while it looks at another one.
-/
theorem Inv.attempt_of_larger (h : s.Inv) (hk : k < s.count) (ha : (s.line k).reception = .serving a)
    (hb : s.acceptor k = s.larger) (he : s.reg (s.acceptor k) = some e) :
    e.Attempt (s.Waits (s.acceptor k)) ∧
      (e.sd = none ∨ ∃ j, e.sd = some ⟨j, .con⟩ ∧ s.taken j = false) ∧ e.replacing ≠ 1 := by
  have hd : (s.line k).dialler = !s.larger := by rw [← hb, acceptor, Bool.not_not]
  have hcon := h.shape.small k hk hd
  have huntaken : s.taken k = false := by rw [Encounter.taken, ha]
  rcases h.role_cases he with ⟨hattempt, hfree⟩ | ⟨j, -, hj, htaken⟩ | ⟨j, -, hj, htaken⟩
  · refine ⟨hattempt, hfree, fun hone ↦ ?_⟩
    obtain ⟨j, hj, -, hdialler, hhanded⟩ := (h.marked _ e he hone).sd
    have hcon' := h.shape.small j hj hdialler
    rw [hcon, Option.some_inj, Fd.mk.injEq] at hcon'
    rw [← hcon'.1, ha] at hhanded
    cases hhanded
  · -- the other side would have the accepting end of `j`
    obtain ⟨hlt, hdialler, -⟩ := h.shape.con _ j ((sd_of_reg he).trans hj)
    have hacc := h.shape.taken j hlt htaken
    rw [acceptor, hdialler, hb, hcon] at hacc
    cases hacc
  · obtain ⟨-, -, -, hother⟩ := h.shape.acc _ j ((sd_of_reg he).trans hj)
    rw [hb, hcon, Option.some_inj, Fd.mk.injEq] at hother
    rw [← hother.1, huntaken] at htaken
    cases htaken

/-- **A registered connection meets a connect message.** -/
theorem Inv.meets {peerLess : Bool} (h : s.Inv) (hk : k < s.count)
    (ha : (s.line k).reception = .serving a) (he : s.reg (s.acceptor k) = some e)
    (hfair : s.Fair k e peerLess) :
    e.Meets a.connectMsg peerLess (s.policy (s.acceptor k)).resetcheck
      (s.Waits (s.line k).dialler) := by
  obtain ⟨hless, hcurrent, hstandby⟩ := hfair
  have huntaken : s.taken k = false := by rw [Encounter.taken, ha]
  have hopened {w : Prop} (hattempt : e.Attempt w) : e.state ≠ .opened :=
    fun hs ↦ hattempt.not_state hs (by decide)
  by_cases hb : s.acceptor k = s.larger
  · obtain ⟨hattempt, -, hone⟩ := h.attempt_of_larger hk ha hb he
    have hrepl : e.replacing = 0 := by
      have hclaimed := hattempt.claimed
      omega
    refine .yields hattempt.connectSeq hattempt.lossless.1 ?_ ?_ (hopened hattempt) hstandby
    · rw [hless, hb]
      exact beq_self_eq_true _
    · rw [Conn.busy, hrepl, hattempt.running.1]
      have hclosed : e.state ≠ .closed := fun hs ↦ hattempt.not_state hs (by decide)
      have htag : e.state ≠ .openTagClose := fun hs ↦ hattempt.not_state hs (by decide)
      simp [hclosed, htag]
  · have hsmall : s.acceptor k = !s.larger := Bool.eq_not.mpr hb
    have hd : (s.line k).dialler = s.larger := by
      rw [← Bool.not_not s.larger, ← hsmall, acceptor, Bool.not_not]
    have hpeer : peerLess = false := by
      rw [hless, hsmall]
      cases s.larger <;> rfl
    have hdialled (hno : ∀ j, e.sd ≠ some ⟨j, .acc⟩) : s.Waits (s.line k).dialler := by
      refine ⟨hd, ?_, fun j hj ↦ ?_⟩
      · rw [← hsmall, he]
        rfl
      · rw [← hsmall, sd_of_reg he] at hj
        exact hno j hj
    have hwaits : ¬ s.Waits (s.acceptor k) := fun hw ↦ hb hw.1
    rcases h.role_cases he with ⟨hattempt, hfree⟩ | ⟨j, hcaller, hj, htaken⟩ | ⟨j, -, hj, htaken⟩
    · refine .insists hattempt.connectSeq hattempt.lossless.1 hpeer hattempt.lossless.2
        (hopened hattempt) (fun hs ↦ ?_) (hdialled fun j hj ↦ ?_)
      · have hplace := hattempt.place.resolve_right fun hp ↦ hwaits hp.1
        rw [Conn.phase_of_state hs (by decide)] at hplace
        exact absurd hplace (by decide)
      · rcases hfree with hnone | ⟨i, hi, -⟩
        · rw [hnone] at hj
          cases hj
        · rw [hi] at hj
          cases hj
    · -- the attempt of the other side has been replaced, so its socket is closed
      obtain ⟨hlt, hdialler, -⟩ := h.shape.con _ j ((sd_of_reg he).trans hj)
      have hacc := h.shape.taken j hlt htaken
      rw [acceptor, hdialler, hsmall, Bool.not_not] at hacc
      have hgone : s.holds k = false := by
        rw [holds, hd, hacc]
        simp
      have hzero := hcurrent.resolve_right fun hholds ↦ absurd (hgone.symm.trans hholds) (by decide)
      have hclosed : e.state.isOpen = false := by
        rw [← Bool.not_eq_true]
        exact fun ho ↦ hcaller.opened ho hzero
      obtain ⟨hlossy, hserver⟩ := hcaller.lossless hclosed
      refine .insists hzero hlossy hpeer hserver (fun hs ↦ ?_)
        (fun hs ↦ hcaller.not_state hs (by decide)) (hdialled fun i hi ↦ ?_)
      · rw [hs] at hclosed
        exact absurd hclosed (by decide)
      · rw [hj] at hi
        cases hi
    · -- the smaller side has not dialled, so the larger one has kept its first attempt
      have hself : s.sd (!s.larger) = some ⟨j, .acc⟩ := hsmall ▸ (sd_of_reg he).trans hj
      obtain ⟨-, -, -, hother⟩ := h.shape.acc _ j hself
      rw [Bool.not_not] at hother
      have hcon := h.shape.large (fun hdial ↦ hdial.2 j hself) k hk hd
      rw [hcon, Option.some_inj, Fd.mk.injEq] at hother
      rw [← hother.1, huntaken] at htaken
      cases htaken

/-- The accepting end of socket `k`, served by `a`, is served by another connection, or handed over,
or closed. -/
theorem sameShape_serve {r : Reception} (ha : (s.line k).reception = .serving a) (htaken : r ≠ .taken)
    (hclosed : r = .closed → s.holds k = false) (up down : List Chunk) :
    SameShape s (s.putLine k { s.line k with reception := r, toAcceptor := up, toClient := down }) := by
  refine sameShape_putLine rfl ?_ (fun hh ↦ ?_) (fun hholds hr ↦ ?_) fun hc ↦ ?_
  · rw [Encounter.taken, Encounter.taken, line_putLine_self, ha]
    cases r with
    | taken => exact absurd rfl htaken
    | _ => rfl
  · rw [ha] at hh
    cases hh
  · exact absurd ((hclosed hr).symm.trans hholds) (by decide)
  · rw [ha] at hc
    cases hc

theorem Inv.serveLine {r : Reception} {rest wrote : List Chunk} (h : s.Inv) (hk : k < s.count)
    (ha : (s.line k).reception = .serving a) (htaken : r ≠ .taken)
    (hclosed : r = .closed → s.holds k = false)
    (hrest : ∀ P R, Carries P R (s.line k).toAcceptor → Carries P R rest)
    (hwrote : Carries (fun _ ↦ True) (Mild (s.Waits (s.line k).dialler)) wrote)
    (hserving : ∀ c, r = .serving c →
      c.Vetting (s.Waits (s.line k).dialler) ∧ c.sd = some ⟨k, .acc⟩) :
    (s.putLine k { s.line k with
      reception := r, toAcceptor := rest, toClient := (s.line k).toClient ++ wrote }).Inv := by
  have huntaken : s.taken k = false := by rw [Encounter.taken, ha]
  obtain ⟨hquiet, hsettled⟩ := (h.conveys k hk).atAcceptor hrest (fun _ ↦ hwrote)
    fun hyes ↦ absurd (huntaken.symm.trans hyes) (by decide)
  exact h.putLine (sameShape_serve ha htaken hclosed _ _) (fun _ ↦ ⟨hquiet, hsettled⟩) fun _ ↦ hserving

/-- A socket whose dialling end is gone is closed. -/
theorem Inv.drop (h : s.Inv) (hk : k < s.count) (ha : (s.line k).reception = .serving a)
    (hgone : s.peerGone (some ⟨k, .acc⟩) = true) : (s.receive k .closed).Inv := by
  rw [peerGone, Bool.not_eq_true'] at hgone
  have hinv := h.serveLine (r := .closed) hk ha (by simp) (fun _ ↦ hgone) (fun _ _ hall ↦ hall) .nil
    fun c hc ↦ by cases hc
  rwa [List.append_nil] at hinv

theorem inv_serveWrite {kernel : Option ℕ} (h : s.Inv) (hk : k < s.count)
    (ha : (s.line k).reception = .serving a) (hs' : s.serveWrite k a kernel = some s') : s'.Inv := by
  obtain ⟨hvetting, hsd⟩ := h.serving k hk a ha
  rw [serveWrite] at hs'
  split at hs' <;> rename_i hleft
  · by_cases hgone : s.peerGone (some ⟨k, .acc⟩) = true
    · rw [if_pos hgone, Option.some_inj] at hs'
      exact hs' ▸ h.drop hk ha hgone
    · rw [if_neg hgone] at hs'
      cases hs'
  · have hne : (a.trySend [] kernel).left ≠ none := by
      rw [hleft]
      exact Option.some_ne_none _
    obtain ⟨hnext, hsame, hwrote⟩ := hvetting.of_trySend hne
    rw [Option.some_inj, transfer_receive] at hs'
    subst hs'
    refine h.serveLine hk ha (by simp) (fun hc ↦ by cases hc) (fun _ _ hall ↦ hall) hwrote
      fun c hc ↦ ?_
    obtain rfl := Reception.serving.inj hc
    exact ⟨hnext, hsame.trans hsd⟩

/-- What the accepted connection finds when it comes to judge a connect message. -/
theorem Inv.meets_of_orderly {i : Input Chunk} (h : s.Inv) (hk : k < s.count)
    (ha : (s.line k).reception = .serving a) (hexisting : i.existing = s.reg (s.acceptor k))
    (hpolicy : i.newPolicy = s.policy (s.acceptor k))
    (hord : a.state = .acceptingWaitConnectMsgAuth → ∀ e, s.reg (s.acceptor k) = some e →
      a.connectMsg.globalSeq < e.peerGlobalSeq ∨ s.Fair k e i.peerLess)
    (hs : a.state = .acceptingWaitConnectMsgAuth) (he : i.existing = some e) :
    e.Meets a.connectMsg i.peerLess i.newPolicy.resetcheck (s.Waits (s.line k).dialler) := by
  rw [hexisting] at he
  rw [hpolicy]
  rcases hord hs e he with hglobal | hfair
  · exact .outdates hglobal
  · exact h.meets hk ha he hfair

/-- A pass of an accepted connection that goes on: it keeps the socket, or the registered connection
gets it. -/
theorem Inv.served {arrival : Arrival} {i : Input Chunk} (h : s.Inv) (hk : k < s.count)
    (ha : (s.line k).reception = .serving a)
    (hread : i.read = (a.fetch (s.line k).toAcceptor arrival).1)
    (hexisting : i.existing = s.reg (s.acceptor k)) (hpolicy : i.newPolicy = s.policy (s.acceptor k))
    (hord : a.state = .acceptingWaitConnectMsgAuth → ∀ e, s.reg (s.acceptor k) = some e →
      a.connectMsg.globalSeq < e.peerGlobalSeq ∨ s.Fair k e i.peerLess)
    (hfail : (a.pass K flags Frame.chunks i).flow ≠ .fail)
    (habort : (a.pass K flags Frame.chunks i).flow ≠ .abort) :
    let o := a.pass K flags Frame.chunks i
    let moved := s.transfer (some ⟨k, .acc⟩) (a.fetch (s.line k).toAcceptor arrival).2 o.wrote
    ((o.effect = .none ∨ o.effect = .keepalive) ∧ (moved.receive k (.serving o.conn)).Inv) ∨
    (o.effect = .register ∧ ((moved.receive k .taken).putReg (s.acceptor k) o.conn).Inv) ∨
    ∃ e, o.effect = .replace e ∧ ((moved.receive k .handed).putReg (s.acceptor k) e).Inv := by
  obtain ⟨hvetting, hsd⟩ := h.serving k hk a ha
  have huntaken : s.taken k = false := by rw [Encounter.taken, ha]
  have hdialler : (s.line k).dialler = !s.acceptor k := by rw [acceptor, Bool.not_not]
  obtain ⟨hup, hdown⟩ := (h.conveys k hk).quiet huntaken
  have hfirst (hnone : i.existing = none) : ¬ s.Waits (s.line k).dialler := by
    rintro ⟨hd, hknown, -⟩
    rw [hexisting, acceptor, hd] at hnone
    rw [hnone] at hknown
    cases hknown
  have hvetted := hvetting.vetted_of_pass
    (fun hs e he ↦ h.meets_of_orderly hk ha hexisting hpolicy hord hs he) hfirst
    (hread ▸ (hup.fetch a arrival).1) hfail habort
  have hrest (P : MsgConnect → Prop) (R : MsgConnectReply → Prop)
      (hall : Carries P R (s.line k).toAcceptor) :
      Carries P R (a.fetch (s.line k).toAcceptor arrival).2 := (hall.fetch a arrival).2
  dsimp only
  rw [transfer_receive, transfer_receive, transfer_receive]
  generalize a.pass K flags Frame.chunks i = o at hvetted
  cases hvetted with
  | stays hconn hsame hwrote heffect =>
    refine Or.inl ⟨heffect, h.serveLine hk ha (by simp) (fun hc ↦ by cases hc) hrest hwrote
      fun c hc ↦ ?_⟩
    obtain rfl := Reception.serving.inj hc
    exact ⟨hconn, hsame.trans hsd⟩
  | opens hnone hconn hsame hwrote heffect =>
    have hwaits := hfirst hnone
    rw [hexisting] at hnone
    have hfree : s.sd (s.acceptor k) = none := by rw [sd, hnone, Option.bind_none]
    refine Or.inr (Or.inl ⟨heffect, h.take hk ⟨hdialler, hdialler⟩ rfl
      (h.shape.not_acc_of_free hfree) ?_ (Or.inr hnone) hconn (hsame.trans hsd) ⟨?_, ?_⟩⟩)
    · -- the side that has dialled is still there
      rw [← hdialler]
      by_cases hd : (s.line k).dialler = s.larger
      · rw [hd]
        refine h.shape.large (fun hdial ↦ ?_) k hk hd
        exact hwaits ⟨hd, hdial⟩
      · rw [Bool.eq_not.mpr hd]
        exact h.shape.small k hk (Bool.eq_not.mpr hd)
    · exact (hrest _ _ hup).imp (fun m hm ↦ hm.trans_le (Nat.zero_le 1)) fun _ hr ↦ hr
    · rw [hwrote, List.append_nil]
      exact hdown.imp (fun _ hm ↦ hm) fun _ hr ↦ hr.settling hwaits
  | hands e hs he hglobal hless hasked hwrote heffect =>
    rw [hexisting] at he
    have hfair := (hord hs e he).resolve_left (Nat.not_lt.mpr hglobal)
    have hb : s.acceptor k = s.larger := by
      rw [← beq_iff_eq, ← hfair.less]
      exact hless
    obtain ⟨hattempt, hfree, -⟩ := h.attempt_of_larger hk ha hb he
    have hplays : s.Plays (s.acceptor k)
        (e.markReplacing a.sd a.connectMsg i.authorizerReply false false) :=
      .of_attempt hfree (hattempt.markReplacing ..) rfl
    have hinv := h.serveLine (r := .handed) hk ha (by simp) (fun hc ↦ by cases hc) hrest
      (hwrote ▸ .nil : Carries _ _ o.wrote) fun c hc ↦ by cases hc
    have hsame := sameShape_serve (r := .handed) ha (by simp) (fun hc ↦ by cases hc)
      (a.fetch (s.line k).toAcceptor arrival).2 ((s.line k).toClient ++ o.wrote)
    refine Or.inr (Or.inr ⟨_, heffect, hinv.putReg he rfl (hsame.plays hplays) fun _ ↦ ?_⟩)
    refine ⟨hb, rfl, hasked, k, hk, hsd, ?_, ?_⟩
    · rw [line_putLine_self]
      exact hb ▸ hdialler
    · rw [line_putLine_self]

/-- **One pass of an accepted connection.** -/
theorem inv_serve {arrival : Arrival} {inp : Input Chunk} (h : s.Inv) (hk : k < s.count)
    (ha : (s.line k).reception = .serving a) (hord : s.Orderly (.serve k arrival inp))
    (hs' : s.serve K flags k a arrival inp = some s') : s'.Inv := by
  rw [Encounter.serve] at hs'
  dsimp only at hs'
  generalize hi : ({ inp with
    read := (a.fetch (s.line k).toAcceptor arrival).1
    existing := s.reg (s.acceptor k)
    newPolicy := s.policy (s.acceptor k)
    gseq := s.gseq (s.acceptor k) } : Input Chunk) = i at hs'
  have hread : i.read = (a.fetch (s.line k).toAcceptor arrival).1 := by rw [← hi]
  have hexisting : i.existing = s.reg (s.acceptor k) := by rw [← hi]
  have hpolicy : i.newPolicy = s.policy (s.acceptor k) := by rw [← hi]
  have hfair : a.state = .acceptingWaitConnectMsgAuth → ∀ e, s.reg (s.acceptor k) = some e →
      a.connectMsg.globalSeq < e.peerGlobalSeq ∨ s.Fair k e i.peerLess := by
    intro hs e he
    rw [← hi]
    exact hord a e ha hs he
  -- only what the input has in common with the state matters from here on
  clear hi hord
  have hassumes : a.assumesReset i = false := Conn.Vetting.assumesReset_eq_false
    fun hs e he ↦ h.meets_of_orderly hk ha hexisting hpolicy hfair hs he
  have hempty := (h.serving k hk a ha).1.empty
  rw [hassumes, Bool.or_false] at hs'
  generalize Function.update s.gseq (s.acceptor k) _ = g at hs'
  have hinv : ({ s with gseq := g } : Encounter).Inv := h.withGseq g
  split at hs' <;> rename_i hflow
  · cases hs'
  · cases hs'
  · split_ifs at hs' with hgone
    rw [Option.some_inj] at hs'
    exact hs' ▸ hinv.drop hk ha hgone
  · rename_i habort hclose
    have hserved := hinv.served hk ha hread hexisting hpolicy
      (fun hs e he ↦ (hfair hs e he).imp_right fun hf ↦ ⟨hf.less, hf.current, hf.standby⟩) hflow habort
    dsimp only at hserved
    rcases hserved with ⟨heffect | heffect, hstays⟩ | ⟨heffect, hopens⟩ | ⟨e, heffect, hhands⟩
    · rw [heffect, Option.some_inj] at hs'
      exact hs' ▸ hstays
    · rw [heffect] at hs'
      dsimp only at hs'
      split at hs' <;> rename_i hreg
      · rw [Option.some_inj] at hs'
        exact hs' ▸ hstays
      · rw [Option.some_inj] at hs'
        exact hs' ▸ hstays.adds hreg (Conn.adds_askKeepalive _)
    · rw [heffect, Option.some_inj] at hs'
      exact hs' ▸ hopens
    · rw [heffect, Option.some_inj, hempty, List.append_nil] at hs'
      exact hs' ▸ hhands

end Serving

/-! ## Runs -/

/-- Two lossless peers, neither with a connection for the other. -/
structure Starts (s : Encounter) : Prop where
  policy : ∀ b, (s.policy b).lossy = false ∧ (s.policy b).server = false
  reg : ∀ b, s.reg b = none
  count : s.count = 0
  line : ∀ k, (s.line k).reception = .closed
  history : s.mistaken = false ∧ s.reset = false ∧ s.discarded = []

theorem inv_of_starts (h : s.Starts) : s.Inv := by
  have hsd (b : Bool) : s.sd b = none := by rw [sd, h.reg, Option.bind_none]
  have hno {P : Prop} {k : ℕ} (hk : k < s.count) : P := by
    rw [h.count] at hk
    exact absurd hk (Nat.not_lt_zero k)
  have hfree {P : Prop} {b : Bool} {fd : Fd} (hfd : s.sd b = some fd) : P := by
    rw [hsd] at hfd
    cases hfd
  have hnone {P : Prop} {b : Bool} {c : Conn Chunk} (hc : s.reg b = some c) : P := by
    rw [h.reg] at hc
    cases hc
  refine ⟨h.policy, ⟨?_, ?_, ?_, ?_, ?_⟩, ?_, ?_, ?_, ?_, fun k _ ↦ h.line k, h.history⟩
  · exact fun b k hk ↦ hfree hk
  · exact fun b k hk ↦ hfree hk
  · exact fun k hk ↦ hno hk
  · exact fun k hk ↦ hno hk
  · exact fun _ k hk ↦ hno hk
  · exact fun b c hc ↦ hnone hc
  · exact fun b c hc ↦ hnone hc
  · exact fun k hk ↦ hno hk
  · exact fun k hk ↦ hno hk

/-- `handle_replace`. -/
theorem inv_handleReplace {b : Bool} {c : Conn Chunk} {r : ReplaceInput} (h : s.Inv)
    (hc : s.reg b = some c) (hone : c.replacing = 1) (hs' : s.doReplace b c r = some s') : s'.Inv := by
  rcases h.role_cases hc with ⟨hattempt, -⟩ | ⟨k, hcaller, -⟩ | ⟨k, hcallee, -⟩
  · exact h.doReplace (sd_of_reg hc) hattempt (h.marked b c hc hone) hs'
  · exact absurd (hone.symm.trans hcaller.unclaimed) (by decide)
  · exact absurd hone hcallee.claimed

theorem inv_step {act : Act} (h : s.Inv) (hord : s.Orderly act)
    (hs' : s.step K flags act = some s') : s'.Inv := by
  have hserved {k : ℕ} {a : Conn Chunk} (ha : (s.line k).reception = .serving a) : k < s.count := by
    by_contra hle
    rw [h.fresh k (Nat.not_lt.mp hle)] at ha
    cases ha
  cases act with
  | getConnection b =>
    simp only [step] at hs'
    split at hs' <;> rename_i hreg <;> rw [Option.some_inj] at hs'
    · exact hs' ▸ h.getConnection hreg
    · exact hs' ▸ h
  | sendMessage b m =>
    obtain ⟨c, hc, rfl⟩ := Option.map_eq_some_iff.mp hs'
    exact h.enqueue hc m
  | sendKeepalive b =>
    obtain ⟨c, hc, rfl⟩ := Option.map_eq_some_iff.mp hs'
    exact h.adds hc (Conn.adds_askKeepalive c)
  | pass b arrival inp =>
    obtain ⟨c, hc, hs'⟩ := Option.bind_eq_some_iff.mp hs'
    exact inv_pass h hc hs'
  | write b n kernel r =>
    obtain ⟨c, hc, hs'⟩ := Option.bind_eq_some_iff.mp hs'
    exact inv_write h hc hs'
  | handleReplace b r =>
    obtain ⟨c, hc, hs'⟩ := Option.bind_eq_some_iff.mp hs'
    split_ifs at hs' with hone
    exact inv_handleReplace h hc hone hs'
  | serve k arrival inp =>
    simp only [step] at hs'
    split at hs' <;> rename_i ha
    · exact inv_serve h (hserved ha) ha hord hs'
    · cases hs'
  | serveWrite k kernel =>
    simp only [step] at hs'
    split at hs' <;> rename_i ha
    · exact inv_serveWrite h (hserved ha) ha hs'
    · cases hs'

/-- **A race is not taken for a peer reset**: in every run in which connect messages are judged
fairly, `handle_connect_msg` does not set `reset_from_peer`, no session is reset, and no queued
message is discarded. -/
theorem race_no_reset {es : List Act} (hstarts : s.Starts)
    (hord : Run.Meets (step K flags) Orderly s es) (hrun : Run.exec (step K flags) s es = some s') :
    s'.mistaken = false ∧ s'.reset = false ∧ s'.discarded = [] :=
  (Run.invariant_of_meets (fun _ _ _ ↦ inv_step) (inv_of_starts hstarts) hord hrun).unmistaken

/-! ## Two runs -/

/-- Two messengers with the same policy for each other. -/
def peers (policy : Policy) : Encounter := { larger := true, policy := fun _ ↦ policy }

/-- A messenger gets a connection, queues a message and dials. -/
def dialling (b : Bool) : List Act :=
  [.getConnection b, .sendMessage b {}, .pass b .nothing { newSd := some ⟨0, .con⟩ }]

/-- The attempt of a messenger on socket `k` comes as far as its connect message, which waits to be
judged. -/
def asking (b : Bool) (k : ℕ) : List Act :=
  [.serve k .nothing { kernel := some 2 }, .pass b .next { kernel := some 1 },
    .pass b .next { kernel := some 1 }, .pass b .nothing { kernel := some 1 },
    .serve k .next {}, .serve k .next {}]

/-- Both attempts wait to be judged: on socket 0 that of the messenger with the larger address, on
socket 1 the other one. -/
def crossing : List Act := dialling true ++ dialling false ++ asking true 0 ++ asking false 1

/-- The attempt on socket 1 is judged, replaces the other one, and hears of it. -/
def replaced : List Act :=
  [.serve 1 .nothing { peerLess := true }, .handleReplace true { kernel := some 1 },
    .pass false .next {}, .pass false .nothing {}]

/-- The attempt on socket 0 is judged, and answered WAIT, before the other one replaces it. -/
def fairRun : List Act := crossing ++ .serve 0 .nothing { kernel := some 1 } :: replaced

/-- The attempt on socket 0 is judged when it is closed already. -/
def staleRun : List Act :=
  crossing ++ replaced ++ [.serve 0 .nothing {}, .handleReplace false { kernel := some 1 }]

theorem starts_peers {policy : Policy} (h : policy.lossy = false ∧ policy.server = false) :
    (peers policy).Starts :=
  ⟨fun _ ↦ h, fun _ ↦ rfl, rfl, fun _ ↦ rfl, rfl, rfl, rfl⟩

/-- `Orderly`, as a test. -/
def orderlyTest (s : Encounter) : Act → Bool
  | .serve k _ inp => match (s.line k).reception, s.reg (s.acceptor k) with
    | .serving a, some e =>
      a.state != .acceptingWaitConnectMsgAuth || a.connectMsg.globalSeq < e.peerGlobalSeq ||
        inp.peerLess == (s.acceptor k == s.larger) && (e.connectSeq == 0 || s.holds k) &&
          (e.state != .standby || (s.policy (s.acceptor k)).resetcheck)
    | _, _ => true
  | _ => true

theorem orderly_of_test {act : Act} (h : s.orderlyTest act = true) : s.Orderly act := by
  cases act with
  | serve k arrival inp =>
    intro a e ha hs he
    simp only [orderlyTest, ha, he, hs, Bool.or_eq_true, Bool.and_eq_true, bne_self_eq_false,
      Bool.false_eq_true, false_or, decide_eq_true_eq, beq_iff_eq, bne_iff_ne] at h
    refine h.imp_right fun ⟨⟨hless, hcurrent⟩, hstandby⟩ ↦ ⟨hless, hcurrent, fun hs ↦ ?_⟩
    exact hstandby.resolve_left fun hne ↦ hne hs
  | _ => trivial

/-- A race in which the attempt of the messenger with the larger address is answered WAIT and
replaced. -/
theorem race_no_reset_of_wait :
    ∃ s', Run.exec (step Codec.trivial ⟨true, true⟩) (peers (Policy.losslessPeerReuse 0 0)) fairRun =
        some s' ∧
      s'.mistaken = false ∧ s'.reset = false ∧ s'.discarded = [] := by
  have hsome : (Run.exec (step Codec.trivial ⟨true, true⟩) (peers (Policy.losslessPeerReuse 0 0))
      fairRun).isSome = true := by
    decide +kernel
  obtain ⟨s', hrun⟩ := Option.isSome_iff_exists.mp hsome
  refine ⟨s', hrun, race_no_reset (starts_peers ⟨rfl, rfl⟩) ?_ hrun⟩
  exact Run.Meets.of_check (fun _ _ ↦ orderly_of_test) (by decide +kernel)

/-- What a run has come to. -/
def history (s : Encounter) : Bool × Bool × ℕ := (s.mistaken, s.reset, s.discarded.length)

/-- The connect message of an attempt that has been replaced is taken for that of a peer that was
reset: the session is reset, and the queued message is discarded. -/
theorem race_taken_for_reset :
    (peers (Policy.losslessPeerReuse 0 0)).Starts ∧
    ∃ s', Run.exec (step Codec.trivial ⟨true, true⟩) (peers (Policy.losslessPeerReuse 0 0)) staleRun =
        some s' ∧
      s'.mistaken = true ∧ s'.reset = true ∧ s'.discarded.length = 1 := by
  have hout : (Run.exec (step Codec.trivial ⟨true, true⟩) (peers (Policy.losslessPeerReuse 0 0))
      staleRun).map history = some (true, true, 1) := by
    decide +kernel
  obtain ⟨s', hrun, hs⟩ := Option.map_eq_some_iff.mp hout
  simp only [history, Prod.mk.injEq] at hs
  exact ⟨starts_peers ⟨rfl, rfl⟩, s', hrun, hs⟩

end Encounter

end AsyncMessenger
