import Mathlib.Data.List.Forall2
import AsyncMessenger.Stages

/-!
# The numbers of a peer

A messenger takes a number from one counter for every attempt to connect and for every session it
accepts, and a connection remembers in `peer_global_seq` the number its peer has given to the
session. An attempt with a smaller number is older than the session, and `handle_connect_msg`
refuses it.

## Where the order can break

The test is made when the socket of the attempt is handed over. When `do_replace` takes the socket,
the registered connection may have completed a connect of its own in the meantime, and its session
may have a larger number than the attempt. The condition of the results is that this does not
happen: no connect is completed while an older attempt has a claim on the connection.

## The invariant

`Dated` orders the numbers that a connection has: its session, the claim on it, the number it has
dialled with, and the counter of the peer, now and when it was dialled. The peer is `honest`, so a
connect message or a reply has a number that the peer has taken, and that is not older than the dial
it answers. Each move of the connection is one of a few cases (`Move.dated`), and what other
connections do to it is `dated_markReplacing`. That the number of a session never gets smaller
follows step by step (`Follows`).

## The counter itself

The last section is about `get_global_seq`, whose numbers are new as long as the counter does not
start again. An argument, which may come from a peer, can make it do so at once.
-/

namespace AsyncMessenger

/-- The states between dialing the peer and the session. -/
def State.dialing : List State :=
  [.connectingWaitBanner, .connectingWaitIdentifyPeer, .connectingSendConnectMsg,
    .connectingWaitConnectReply, .connectingWaitConnectReplyAuth, .connectingWaitAckSeq,
    .connectingReady, .wait]

/-- The states in which the peer has accepted the session. -/
def State.answered : List State := [.connectingWaitAckSeq, .connectingReady]

namespace Conn

variable {β : Type} {enc : Frame → List β} {K : Codec} {flags : CrcFlags}

/-- What an honest peer sends, when its counter is at `now` and was at `since` when the connection
dialed it: a connect message carries a number the peer has taken, not smaller than that of the earlier
message on the same socket, and the number of a session is taken after the dial. -/
def honest (now since : ℕ) (c : Conn β) : Read → Bool
  | .done (.connect m) =>
    m.globalSeq ≤ now && (c.replacing != 2 || c.replacingConnect.globalSeq ≤ m.globalSeq)
  | .done (.reply r) =>
    r.tag ∉ [Tag.ready, Tag.seq] || (since < r.globalSeq && r.globalSeq ≤ now)
  | _ => true

/-- The reply of the peer accepts the session, and the connection knows it. -/
def Answered (c : Conn β) : Prop :=
  c.phase ∈ State.answered ∨
    c.state = .connectingWaitConnectReplyAuth ∧ c.connectReply.tag ∈ [Tag.ready, Tag.seq]

/-- How the numbers in a connection are ordered; `reg` says whether it is registered. -/
structure Dated (reg : Bool) (now since : ℕ) (c : Conn β) : Prop where
  past : reg = true → c.peerGlobalSeq ≤ now
  asked : c.state = .acceptingWaitConnectMsgAuth → c.connectMsg.globalSeq ≤ now
  dialed : reg = true → c.phase ∈ State.dialing → c.peerGlobalSeq ≤ since
  answered : c.Answered → since < c.connectReply.globalSeq ∧ c.connectReply.globalSeq ≤ now
  first : reg = true → c.replacing = 1 → c.peerGlobalSeq ≤ c.replacingConnect.globalSeq
  second : c.replacing = 2 → c.state ∈ State.asking ∧ (c.opening = none →
    (reg = true → c.peerGlobalSeq ≤ c.replacingConnect.globalSeq) ∧
    (c.state = .acceptingWaitConnectMsgAuth →
      c.replacingConnect.globalSeq ≤ c.connectMsg.globalSeq))

variable {reg : Bool} {now since : ℕ}

theorem Dated.replacing_ne_two {c : Conn β} (h : c.Dated reg now since) {s : State}
    (hs : c.state = s) (hnot : s ∉ State.asking) : c.replacing ≠ 2 :=
  fun htwo ↦ hnot (hs ▸ (h.second htwo).1)

theorem Answered.phase_mem {c : Conn β} (h : c.Answered) : c.phase ∈ State.dialing := by
  rcases h with h | ⟨hs, -⟩
  · have hsub : ∀ s ∈ State.answered, s ∈ State.dialing := by decide
    exact hsub _ h
  · rw [phase_of_state hs (by decide)]
    decide

/-- In the other states only the session and the claim on it count. -/
theorem Dated.elsewhere {c c' : Conn β} {since' : ℕ} (h : c.Dated reg now since)
    (hsession : c'.peerGlobalSeq = c.peerGlobalSeq)
    (hconnect : c'.replacingConnect = c.replacingConnect)
    (hone : c'.replacing = 1 → c.replacing = 1) (htwo : c'.replacing ≠ 2)
    (hphase : c'.phase ∉ State.acceptingWaitConnectMsgAuth :: State.dialing) :
    c'.Dated reg now since' where
  past := hsession ▸ h.past
  asked hs := by
    rw [phase_of_state hs (by decide)] at hphase
    exact absurd List.mem_cons_self hphase
  dialed _ hmem := absurd (List.mem_cons_of_mem _ hmem) hphase
  answered hans := absurd (List.mem_cons_of_mem _ hans.phase_mem) hphase
  first hreg hrepl := by
    rw [hsession, hconnect]
    exact h.first hreg (hone hrepl)
  second hrepl := absurd hrepl htwo

theorem Dated.of_state {c c' : Conn β} {since' : ℕ} {s : State} (h : c.Dated reg now since)
    (hs : c'.state = s)
    (hnot : s ∉ State.waitSend :: State.acceptingWaitConnectMsgAuth :: State.dialing)
    (hsession : c'.peerGlobalSeq = c.peerGlobalSeq)
    (hconnect : c'.replacingConnect = c.replacingConnect)
    (hone : c'.replacing = 1 → c.replacing = 1) (htwo : c'.replacing ≠ 2) :
    c'.Dated reg now since' := by
  apply h.elsewhere hsession hconnect hone htwo
  rw [phase_of_state hs (by rintro rfl; exact hnot List.mem_cons_self)]
  exact fun hmem ↦ hnot (List.mem_cons_of_mem _ hmem)

/-- On the way from the dial to the session. -/
theorem Dated.of_dialing {c c' : Conn β} (h : c.Dated reg now since) (hc : c.phase ∈ State.dialing)
    (hsession : c'.peerGlobalSeq = c.peerGlobalSeq)
    (hconnect : c'.replacingConnect = c.replacingConnect) (hrepl : c'.replacing = c.replacing)
    (hask : c'.state ≠ .acceptingWaitConnectMsgAuth)
    (hanswered : c'.Answered →
      since < c'.connectReply.globalSeq ∧ c'.connectReply.globalSeq ≤ now) :
    c'.Dated reg now since where
  past := hsession ▸ h.past
  asked hs := absurd hs hask
  dialed hreg _ := hsession ▸ h.dialed hreg hc
  answered := hanswered
  first hreg hone := by
    rw [hsession, hconnect]
    exact h.first hreg (hrepl ▸ hone)
  second htwo := by
    refine absurd (h.second (hrepl ▸ htwo)).1 fun hmem ↦ ?_
    have hphase : c.phase ∈ State.awaiting := by
      apply phase_mem_awaiting rfl
      revert hmem
      cases c.state <;> decide
    revert hc hphase
    cases c.phase <;> decide

/-- Before a dial the counter may be read again. -/
theorem Dated.redial {c : Conn β} {since' : ℕ} (h : c.Dated reg now since)
    (hs : c.state = .connecting) : c.Dated reg now since' :=
  h.of_state hs (by decide) rfl rfl id (h.replacing_ne_two hs (by decide))

theorem Dated.mono {c : Conn β} {now' : ℕ} (h : c.Dated reg now since) (hle : now ≤ now') :
    c.Dated reg now' since where
  past hreg := (h.past hreg).trans hle
  asked hs := (h.asked hs).trans hle
  dialed := h.dialed
  answered hans := ⟨(h.answered hans).1, (h.answered hans).2.trans hle⟩
  first := h.first
  second := h.second

theorem Dated.of_shell {c c' : Conn β} (h : c.Dated reg now since) (hshell : c'.shell = c.shell) :
    c'.Dated reg now since := by
  have hdated : c.shell.Dated reg now since :=
    ⟨h.past, h.asked, h.dialed, h.answered, h.first, h.second⟩
  rw [← hshell] at hdated
  exact ⟨hdated.past, hdated.asked, hdated.dialed, hdated.answered, hdated.first, hdated.second⟩

/-! ## The passes

In the states off the way from the dial to the session no reply counts, and the order is kept
because the numbers are. On that way the connection dials, sends, hears, and completes its connect. -/

/-- The number of the session changes when a connect is completed, or a session accepted. -/
theorem Move.peerGlobalSeq_eq {c : Conn β} {inp : Input β} {o : Outcome β} (h : Move enc c inp o) :
    o.conn.peerGlobalSeq = c.peerGlobalSeq ∨
    (c.state = .connectingReady ∧ o.conn.peerGlobalSeq = c.connectReply.globalSeq) ∨
    (c.state = .acceptingWaitConnectMsgAuth ∧ c.opening = none ∧ o.effect = .register ∧
      o.conn.peerGlobalSeq = c.connectMsg.globalSeq) := by
  cases h with
  | dials fd hs hserver hsd => exact Or.inl (by simp [dial, hserver, hsd, goto])
  | failsDial hs hserver hsd => exact Or.inl (by simp [dial, hserver, hsd, failed])
  | sends d frames next k evWrite s a hprep hnext => exact Or.inl (by cases hprep <;> rfl)
  | failsSend d frames next hprep => exact Or.inl (by cases hprep <;> rfl)
  | heeds d s g hs hheeds => exact Or.inl (by cases hheeds <;> rfl)
  | connected hs hseq => exact Or.inr (Or.inl ⟨hs, by simp [connectDone, hseq]⟩)
  | handsOver p e reset fromPeer hs =>
    apply Or.inl
    rw [stop, if_neg (by simp [hs])]
    rfl
  | opens p hs hopening =>
    refine Or.inr (Or.inr ⟨hs, hopening, rfl, ?_⟩)
    simp only [openSession]
    split_ifs <;> rfl
  | _ => exact Or.inl rfl

/-- A state of the dial that sends and goes on to `next`. -/
theorem Move.dated_sends {c d : Conn β} {inp : Input β} {o : Outcome β} {frames : List Frame}
    {next : State} (hlater : c.Later) (hd : c.Dated reg now since)
    (hprep : Prepares c inp d frames next) (hphase : o.conn.phase = next)
    (hstate : o.conn.state = next ∨ o.conn.state = .waitSend)
    (hsession : o.conn.peerGlobalSeq = d.peerGlobalSeq)
    (hconnect : o.conn.replacingConnect = d.replacingConnect)
    (hrepl : o.conn.replacing = d.replacing) (hreply : o.conn.connectReply = d.connectReply) :
    o.conn.Dated reg now since := by
  have hne {s : State} (hnext : next ≠ s) (hwait : s ≠ .waitSend) : o.conn.state ≠ s := by
    intro hs
    rcases hstate with h | h
    · exact hnext (h.symm.trans hs)
    · exact hwait (hs.symm.trans h)
  have hdialing {s : State} (hs : c.state = s) (hmem : s ∈ State.dialing) :
      c.phase ∈ State.dialing := by
    rw [phase_of_state hs (by rintro rfl; exact absurd hmem (by decide))]
    exact hmem
  cases hprep with
  | banner hs | addr hs | connect _ _ hs =>
    refine hd.of_dialing (hdialing hs (by decide)) hsession hconnect hrepl
      (hne (by decide) (by decide)) fun hans ↦ ?_
    rcases hans with hans | ⟨hs, -⟩
    · exact absurd (hphase ▸ hans) (by decide)
    · exact absurd hs (hne (by decide) (by decide))
  | seq n hs =>
    refine hd.of_dialing (hdialing hs (by decide)) hsession hconnect hrepl
      (hne (by decide) (by decide)) fun _ ↦ ?_
    rw [hreply]
    refine hd.answered (Or.inl ?_)
    rw [phase_of_state hs (by decide)]
    decide
  | greeting hs =>
    refine hd.elsewhere hsession hconnect (fun hone ↦ hrepl ▸ hone) ?_ ?_
    · rw [hrepl]
      exact hd.replacing_ne_two hs (by decide)
    · rw [hphase]
      decide
  | reply frames next hs hsome =>
    refine hd.elsewhere hsession hconnect (fun hone ↦ absurd (hrepl.symm.trans hone) (by simp)) ?_ ?_
    · rw [hrepl]
      simp
    · rw [hphase]
      rcases hlater.opening frames next hsome with rfl | rfl <;> decide

/-- What `handle_connect_reply` goes on with. -/
theorem Move.dated_heeds {c d : Conn β} {inp : Input β} {s : State} {g : ℕ}
    (hd : c.Dated reg now since) (hs : c.state = .connectingWaitConnectReplyAuth)
    (hheeds : Heeds c inp d s g) :
    ({ d with state := s } : Conn β).Dated reg now since := by
  have hphase : c.phase ∈ State.dialing := by
    rw [phase_of_state hs (by decide)]
    decide
  have hno {c' : Conn β} {t : State} (ht : c'.state = t) (hwait : t ≠ .waitSend)
      (hnot : t ∉ State.connectingWaitConnectReplyAuth :: State.answered) : ¬ c'.Answered := by
    rintro (hans | ⟨hs, -⟩)
    · rw [phase_of_state ht hwait] at hans
      exact hnot (List.mem_cons_of_mem _ hans)
    · exact hnot ((ht.symm.trans hs) ▸ List.mem_cons_self)
  cases hheeds with
  | badAuthorizer | resetSession | retryGlobal | retrySession =>
    exact hd.of_dialing hphase rfl rfl rfl (by simp) fun hans ↦
      absurd hans (hno (t := .connectingSendConnectMsg) rfl (by decide) (by decide))
  | wait =>
    exact hd.of_dialing hphase rfl rfl rfl (by simp) fun hans ↦
      absurd hans (hno (t := .wait) rfl (by decide) (by decide))
  | seq htag =>
    exact hd.of_dialing hphase rfl rfl rfl (by simp) fun _ ↦
      hd.answered (Or.inr ⟨hs, by simp [htag]⟩)
  | ready htag =>
    exact hd.of_dialing hphase rfl rfl rfl (by simp) fun _ ↦
      hd.answered (Or.inr ⟨hs, by simp [htag]⟩)

/-- Off the way from the dial to the session, no reply counts. -/
theorem dated_of_not_dialing {c : Conn β} {s : State} (hs : c.state = s)
    (hnot : s ∉ State.waitSend :: State.dialing) (past : reg = true → c.peerGlobalSeq ≤ now)
    (asked : c.state = .acceptingWaitConnectMsgAuth → c.connectMsg.globalSeq ≤ now)
    (first : reg = true → c.replacing = 1 → c.peerGlobalSeq ≤ c.replacingConnect.globalSeq)
    (second : c.replacing = 2 → c.state ∈ State.asking ∧ (c.opening = none →
      (reg = true → c.peerGlobalSeq ≤ c.replacingConnect.globalSeq) ∧
      (c.state = .acceptingWaitConnectMsgAuth →
        c.replacingConnect.globalSeq ≤ c.connectMsg.globalSeq))) :
    c.Dated reg now since := by
  have hphase : c.phase ∉ State.dialing := by
    rw [phase_of_state hs (by rintro rfl; exact hnot List.mem_cons_self)]
    exact fun hmem ↦ hnot (List.mem_cons_of_mem _ hmem)
  exact ⟨past, asked, fun _ h ↦ absurd h hphase, fun h ↦ absurd h.phase_mem hphase, first, second⟩

/-- What was left to write is written. -/
theorem Move.dated_flushes {c : Conn β} (hlater : c.Later) (hd : c.Dated reg now since)
    (hs : c.state = .waitSend) (hafter : c.stateAfterSend ≠ .none) :
    ({ c with state := c.stateAfterSend, stateAfterSend := .none, evRead := true } : Conn β).Dated reg
      now since := by
  have hmem : c.stateAfterSend ∈ State.afterSend := hlater.afterSend.resolve_left hafter
  have hnot : ∀ s ∈ State.afterSend, s ≠ .waitSend ∧ s ≠ .acceptingWaitConnectMsgAuth ∧
      s ≠ .connectingWaitConnectReplyAuth := by decide
  obtain ⟨hwait, hauth, hreplyAuth⟩ := hnot _ hmem
  have hphase : c.phase = c.stateAfterSend := by
    rw [phase, if_pos hs]
  have hans {c' : Conn β} (hc' : c'.state = c.stateAfterSend) (h : c'.Answered) : c.Answered := by
    rcases h with h | ⟨h, -⟩
    · rw [phase_of_state hc' hwait] at h
      exact Or.inl (hphase ▸ h)
    · exact absurd (hc'.symm.trans h) hreplyAuth
  exact {
    past := hd.past
    asked := fun h ↦ absurd h hauth
    dialed := fun hreg h ↦ by
      rw [phase_of_state (s := c.stateAfterSend) rfl hwait] at h
      exact hd.dialed hreg (hphase ▸ h)
    answered := fun h ↦ hd.answered (hans rfl h)
    first := hd.first
    second := fun htwo ↦ absurd htwo (hd.replacing_ne_two hs (by decide)) }

/-- The dial: what the connection knew before is older. -/
theorem Move.dated_dials {c : Conn β} {inp : Input β} {fd : Fd} (hd : c.Dated reg now since)
    (hs : c.state = .connecting) (hserver : c.policy.server = false) (hsd : inp.newSd = some fd)
    (hdial : since = now) : (c.dial inp).conn.Dated reg now since := by
  have hdialed : c.dial inp = { c with
      gotBadAuth := false, authorizer := none, connectMsg := {}, connectReply := {},
      globalSeq := getGlobalSeq inp.gseq 0, sd := inp.newSd, evRead := true,
      evWrite := false : Conn β }.goto .connectingWaitBanner (getGlobalSeq inp.gseq 0) := by
    simp [dial, hserver, hsd]
  rw [hdialed]
  exact {
    past := hd.past
    asked := fun h ↦ absurd h (by simp [goto])
    dialed := fun hreg _ ↦ hdial ▸ hd.past hreg
    answered := fun h ↦ by
      rcases h with h | ⟨h, -⟩
      · rw [phase_of_state (s := .connectingWaitBanner) rfl (by decide)] at h
        exact absurd h (by decide)
      · exact absurd h (by simp [goto])
    first := hd.first
    second := fun htwo ↦ absurd htwo (hd.replacing_ne_two hs (by decide)) }

/-- The kernel takes nothing. -/
theorem Move.dated_failsSend {c d : Conn β} {inp : Input β} {frames : List Frame} {next : State}
    {out : List β} (hd : c.Dated reg now since) (hprep : Prepares c inp d frames next) :
    ({ d with outcomingBl := out } : Conn β).Dated reg now since := by
  cases hprep with
  | connect auth m hs =>
    exact ⟨hd.past, fun h ↦ absurd (hs.symm.trans h) (by decide), hd.dialed, hd.answered, hd.first,
      fun htwo ↦ absurd htwo (hd.replacing_ne_two hs (by decide))⟩
  | reply frames next hs hsome =>
    exact ⟨hd.past, hd.asked, hd.dialed, hd.answered, fun _ h ↦ absurd h (by simp),
      fun h ↦ absurd h (by simp)⟩
  | _ => exact ⟨hd.past, hd.asked, hd.dialed, hd.answered, hd.first, hd.second⟩

/-- The reply of an honest peer. -/
theorem Move.dated_hears {c : Conn β} {r : MsgConnectReply} (hd : c.Dated reg now since)
    (hs : c.state = .connectingWaitConnectReply)
    (hhonest : c.honest now since (.done (.reply r)) = true) :
    ({ c with connectReply := r, state := .connectingWaitConnectReplyAuth } : Conn β).Dated reg now
      since := by
  have hphase : c.phase ∈ State.dialing := by
    rw [phase_of_state hs (by decide)]
    decide
  refine hd.of_dialing hphase rfl rfl rfl (by simp) fun hans ↦ ?_
  simp only [honest, Bool.or_eq_true, Bool.and_eq_true, decide_eq_true_eq] at hhonest
  rcases hans with hans | ⟨-, htag⟩
  · rw [phase_of_state (s := .connectingWaitConnectReplyAuth) rfl (by decide)] at hans
    exact absurd hans (by decide)
  · exact hhonest.resolve_left fun hno ↦ hno htag

/-- The session of a completed connect has the number of the reply. -/
theorem Move.dated_connected {c : Conn β} {gseq : ℕ} (hd : c.Dated reg now since)
    (hs : c.state = .connectingReady) (hseq : inc32 c.connectSeq = c.connectReply.connectSeq)
    (hready : reg = true → c.replacing = 1 →
      c.connectReply.globalSeq ≤ c.replacingConnect.globalSeq) :
    (c.connectDone gseq).conn.Dated ((c.connectDone gseq).effect.isRegister || reg) now since := by
  have hdone : (c.connectDone gseq).conn = { c with
      peerGlobalSeq := c.connectReply.globalSeq
      policy := { c.policy with lossy := decide (c.connectReply.flags &&& connectLossy ≠ 0) }
      state := .opened
      connectSeq := inc32 c.connectSeq
      features := c.connectReply.features &&& c.connectMsg.features
      queueReset := true } := by
    simp [connectDone, hseq]
  have heffect : (c.connectDone gseq).effect = .none := by simp [connectDone, hseq]
  rw [hdone, heffect]
  have hans : c.Answered := by
    apply Or.inl
    rw [phase_of_state hs (by decide)]
    decide
  exact dated_of_not_dialing (s := .opened) rfl (by decide) (fun _ ↦ (hd.answered hans).2)
    (fun h ↦ absurd h (by simp)) hready fun htwo ↦ absurd htwo (hd.replacing_ne_two hs (by decide))

/-- The connect message of an honest peer. -/
theorem Move.dated_asked {c : Conn β} {m : MsgConnect} (hd : c.Dated reg now since)
    (hhonest : c.honest now since (.done (.connect m)) = true) :
    ({ c with connectMsg := m, state := .acceptingWaitConnectMsgAuth } : Conn β).Dated reg now
      since := by
  simp only [honest, Bool.and_eq_true, Bool.or_eq_true, bne_iff_ne, decide_eq_true_eq] at hhonest
  refine dated_of_not_dialing (s := .acceptingWaitConnectMsgAuth) rfl (by decide) hd.past
    (fun _ ↦ hhonest.1) hd.first fun htwo ↦ ⟨by simp [State.asking], fun hopening ↦ ?_⟩
  exact ⟨((hd.second htwo).2 hopening).1, fun _ ↦ hhonest.2.resolve_left fun hno ↦ hno htwo⟩

/-- A new session has the number of the connect message. -/
theorem Move.dated_opens {c : Conn β} {inp : Input β} {p : Policy} (hd : c.Dated reg now since)
    (hs : c.state = .acceptingWaitConnectMsgAuth) (hask : c.replacing ≠ 1) {reg' : Bool} :
    (({ c with policy := p } : Conn β).openSession c.connectMsg inp.authorizerReply inp.protoVersion
      inp.gseq).conn.Dated reg' now since := by
  have hopen : ∃ d : Conn β, (({ c with policy := p } : Conn β).openSession c.connectMsg
      inp.authorizerReply inp.protoVersion inp.gseq).conn = d ∧
      d.state = .acceptingWaitConnectMsgAuth ∧ d.opening ≠ none ∧
      d.peerGlobalSeq = c.connectMsg.globalSeq ∧ d.connectMsg = c.connectMsg ∧
      d.replacing = c.replacing := by
    simp only [openSession]
    split_ifs <;> exact ⟨_, rfl, hs, by simp, rfl, rfl, rfl⟩
  obtain ⟨d, heq, hds, hsome, hsession, hmsg, hrepl⟩ := hopen
  rw [heq]
  exact dated_of_not_dialing hds (by decide) (fun _ ↦ hsession ▸ hd.asked hs)
    (fun _ ↦ hmsg ▸ hd.asked hs) (fun _ hone ↦ absurd (hrepl ▸ hone) hask)
    fun _ ↦ ⟨by rw [hds]; decide, fun hnone ↦ absurd hnone hsome⟩

/-- The order of the numbers is kept by every move, if the peer is honest and no connect is completed
over a claim of a smaller number. -/
theorem Move.dated {c : Conn β} {inp : Input β} {o : Outcome β} (h : Move enc c inp o)
    (hlater : c.Later) (hd : c.Dated reg now since) (hdial : c.state = .connecting → since = now)
    (hhonest : c.state ≠ .connecting → c.honest now since inp.read = true)
    (hready : reg = true → c.state = .connectingReady → c.replacing = 1 →
      c.connectReply.globalSeq ≤ c.replacingConnect.globalSeq)
    (hask : c.state = .acceptingWaitConnectMsgAuth → c.opening = none → c.replacing ≠ 1) :
    o.conn.Dated (o.effect.isRegister || reg) now since := by
  -- the moves between states that neither ask nor dial
  have hat {c' : Conn β} {s t : State} (hc : c.state = s) (hs : s ∉ State.asking)
      (ht : c'.state = t)
      (hnot : t ∉ State.waitSend :: State.acceptingWaitConnectMsgAuth :: State.dialing)
      (hsession : c'.peerGlobalSeq = c.peerGlobalSeq)
      (hconnect : c'.replacingConnect = c.replacingConnect)
      (hrepl : c'.replacing = c.replacing) : c'.Dated reg now since :=
    hd.of_state ht hnot hsession hconnect (fun hone ↦ hrepl ▸ hone)
      (hrepl ▸ hd.replacing_ne_two hc hs)
  cases h with
  | waits => exact ⟨hd.past, hd.asked, hd.dialed, hd.answered, hd.first, hd.second⟩
  | aborts | fails => exact hd
  | flushes hs hout hafter => exact Move.dated_flushes hlater hd hs hafter
  | dials fd hs hserver hsd =>
    have heffect : (c.dial inp).effect = .none := by simp [dial, hserver, hsd, goto]
    rw [heffect]
    exact Move.dated_dials hd hs hserver hsd (hdial hs)
  | failsDial hs hserver hsd =>
    have hdialed : c.dial inp = { c with
        gotBadAuth := false, authorizer := none, connectMsg := {}, connectReply := {},
        globalSeq := getGlobalSeq inp.gseq 0, sd := inp.newSd, evRead := false,
        evWrite := false : Conn β }.failed (getGlobalSeq inp.gseq 0) := by
      simp [dial, hserver, hsd]
    rw [hdialed]
    exact hat (t := .connecting) hs (by decide) hs (by decide) rfl rfl rfl
  | sends d frames next k evWrite s a hprep hnext =>
    have hne : next ≠ .waitSend := by
      cases hprep with
      | reply frames next hs hsome =>
        rcases hlater.opening frames next hsome with rfl | rfl <;> decide
      | _ => decide
    refine Move.dated_sends hlater hd hprep (hnext.phase_eq hne rfl rfl) ?_ rfl rfl rfl rfl
    cases hnext with
    | now => exact Or.inl rfl
    | later => exact Or.inr rfl
  | failsSend d frames next hprep => exact Move.dated_failsSend hd hprep
  | hears r hs hread => exact Move.dated_hears hd hs (hread ▸ hhonest (by simp [hs]))
  | heeds d s g hs hheeds => exact Move.dated_heeds hd hs hheeds
  | connected hs hseq => exact Move.dated_connected hd hs hseq fun hreg ↦ hready hreg hs
  | identified hs => exact hat hs (by decide) rfl (by simp [State.dialing]) rfl rfl rfl
  | asked m hs hread => exact Move.dated_asked hd (hread ▸ hhonest (by simp [hs]))
  | refuses p tag reply auth effect r k evWrite hs hopening hp hdeny =>
    have heffect : effect.isRegister = false := by cases hdeny <;> rfl
    rw [heffect]
    exact dated_of_not_dialing (s := .acceptingWaitConnectMsg) rfl (by decide) hd.past
      (fun h ↦ absurd h (by simp)) hd.first fun htwo ↦ ⟨by simp [State.asking], fun hopening ↦
        ⟨((hd.second htwo).2 hopening).1, fun h ↦ absurd h (by simp)⟩⟩
  | failsReply p out effect replacing hs hopening hp heffect hrepl =>
    have hregister : effect.isRegister = false := by rcases heffect with rfl | rfl <;> rfl
    rw [hregister]
    rcases hrepl with rfl | rfl
    · exact ⟨hd.past, hd.asked, hd.dialed, hd.answered, hd.first, hd.second⟩
    · exact ⟨hd.past, hd.asked, hd.dialed, hd.answered, fun _ h ↦ absurd h (by simp),
        fun h ↦ absurd h (by simp)⟩
  | handsOver p e reset fromPeer hs =>
    have hstop : ({ c with policy := p, sd := none } : Conn β).stop.Dated reg now since := by
      rw [stop, if_neg (by simp [hs])]
      exact hd.of_state (s := .closed) rfl (by decide) rfl rfl (fun h ↦ absurd h (by simp)) (by simp)
    exact hstop
  | opens p hs hopening => exact Move.dated_opens hd hs (hask hs hopening)
  | notifies => exact ⟨hd.past, hd.asked, hd.dialed, hd.answered, hd.first, hd.second⟩
  | gotSeq n hs | accepted hs =>
    exact hat hs (by decide) rfl (by simp [State.dialing]) rfl rfl rfl

theorem dated_pass {c : Conn β} {inp : Input β} (hlater : c.Later) (hd : c.Dated reg now since)
    (hdial : c.state = .connecting → since = now)
    (hhonest : c.state ≠ .connecting → c.honest now since inp.read = true)
    (hready : reg = true → c.state = .connectingReady → c.replacing = 1 →
      c.connectReply.globalSeq ≤ c.replacingConnect.globalSeq)
    (hask : c.state = .acceptingWaitConnectMsgAuth → c.opening = none → c.replacing ≠ 1) :
    (c.pass K flags enc inp).conn.Dated ((c.pass K flags enc inp).effect.isRegister || reg) now
      since := by
  rcases pass_cases K flags enc c inp with
    ⟨hopen, heq⟩ | heq | ⟨hs, heq⟩ | ⟨o, hmove, -, -, heq | ⟨-, heq⟩⟩
  · rw [heq]
    obtain ⟨hrest, hopen'⟩ : c.Reads (c.processOpen K flags inp).conn := reads_processOpen hopen
    have hharmless : Harmless (c.processOpen K flags inp) := harmless_processOpen c inp
    have hregister : (c.processOpen K flags inp).effect.isRegister = false := by
      rw [← Bool.not_eq_true, Effect.isRegister_iff]
      exact hharmless.2.2.1
    have hnot : ∀ s ∈ State.waitSend :: State.acceptingWaitConnectMsgAuth :: State.dialing,
        s.isOpen = false := by decide
    have hasking : ∀ s ∈ State.asking, s.isOpen = false := by decide
    have hrepl : (c.processOpen K flags inp).conn.replacing = c.replacing :=
      (congrArg Conn.replacing hrest :)
    rw [hregister]
    -- in an open session nothing of the handshake moves
    refine hd.of_state rfl (fun hmem ↦ ?_) (congrArg Conn.peerGlobalSeq hrest :)
      (congrArg Conn.replacingConnect hrest :) (fun hone ↦ hrepl ▸ hone) ?_
    · rw [hnot _ hmem] at hopen'
      exact absurd hopen' (by decide)
    · rw [hrepl]
      refine hd.replacing_ne_two rfl fun hmem ↦ ?_
      rw [hasking _ hmem] at hopen
      exact absurd hopen (by decide)
  · rw [heq]
    exact hd
  · rw [heq]
    have hphase : c.phase ∈ State.dialing := by
      rw [phase_of_state hs (by decide)]
      decide
    refine hd.of_dialing hphase rfl rfl rfl (by simp [failed]) fun hans ↦ ?_
    rcases hans with hans | ⟨hs, -⟩
    · rw [phase_of_state (s := .connectingSendConnectMsg) rfl (by decide)] at hans
      exact absurd hans (by decide)
    · exact absurd hs (by simp [failed])
  · rw [heq]
    exact hmove.dated hlater hd hdial hhonest hready hask
  · rw [heq]
    have hdated := hmove.dated hlater hd hdial hhonest hready hask
    exact ⟨hdated.past, hdated.asked, hdated.dialed, hdated.answered, hdated.first, hdated.second⟩

variable (enc K flags) in
theorem peerGlobalSeq_pass (c : Conn β) (inp : Input β) :
    (c.pass K flags enc inp).conn.peerGlobalSeq = c.peerGlobalSeq ∨
    (c.state = .connectingReady ∧
      (c.pass K flags enc inp).conn.peerGlobalSeq = c.connectReply.globalSeq) ∨
    (c.state = .acceptingWaitConnectMsgAuth ∧ c.opening = none ∧
      (c.pass K flags enc inp).effect = .register ∧
      (c.pass K flags enc inp).conn.peerGlobalSeq = c.connectMsg.globalSeq) := by
  rcases pass_cases K flags enc c inp with
    ⟨hopen, heq⟩ | heq | ⟨-, heq⟩ | ⟨o, hmove, -, -, heq | ⟨-, heq⟩⟩
  · rw [heq]
    have hreads : c.Reads (c.processOpen K flags inp).conn := reads_processOpen hopen
    exact Or.inl (congrArg Conn.peerGlobalSeq hreads.1 :)
  · exact Or.inl (by rw [heq])
  · exact Or.inl (by rw [heq]; rfl)
  · rw [heq]
    exact hmove.peerGlobalSeq_eq
  · rw [heq]
    exact hmove.peerGlobalSeq_eq

/-! ## The ends

`_stop`, `fault` and `do_replace`, where a connection parts with its socket or gets another one. -/

theorem Dated.weaken {c : Conn β} {reg' : Bool} (h : c.Dated reg now since)
    (hreg : reg' = true → reg = true) : c.Dated reg' now since where
  past hr := h.past (hreg hr)
  asked := h.asked
  dialed hr := h.dialed (hreg hr)
  answered := h.answered
  first hr := h.first (hreg hr)
  second htwo := ⟨(h.second htwo).1, fun hopening ↦
    ⟨fun hr ↦ ((h.second htwo).2 hopening).1 (hreg hr), ((h.second htwo).2 hopening).2⟩⟩

/-- An accepted connection that has just learned the address of its peer. -/
theorem Dated.relocate {c : Conn β} {now' : ℕ} (h : c.Dated false now since)
    (hs : c.state = .acceptingWaitConnectMsg) : c.Dated false now' since where
  past hr := absurd hr (by decide)
  asked hauth := absurd (hs.symm.trans hauth) (by decide)
  dialed hr := absurd hr (by decide)
  answered hans := by
    have hmem := hans.phase_mem
    rw [phase_of_state hs (by decide)] at hmem
    exact absurd hmem (by decide)
  first hr := absurd hr (by decide)
  second := h.second

/-- A socket is handed over by an attempt that is not older than the session. -/
theorem dated_markReplacing {c e : Conn β} {m : MsgConnect} {peerLess reset fromPeer : Bool}
    {sd : Option Fd} {auth : Bytes} (h : e.Dated reg now since)
    (hv : Judges c m peerLess (some e) (.replace reset fromPeer)) :
    (e.markReplacing sd m auth reset fromPeer).Dated reg now since := by
  cases hv with
  | replace e reset fromPeer hglobal hclaim hbusy =>
    exact ⟨h.past, h.asked, h.dialed, h.answered, fun _ _ ↦ hglobal, fun htwo ↦
      absurd htwo (by simp [markReplacing])⟩

/-- A connection that has parted with its socket. -/
theorem Dated.of_parted {c c' : Conn β} (h : c.Dated reg now since) (hmem : c'.state ∈ parted)
    (hsession : c'.peerGlobalSeq = c.peerGlobalSeq)
    (hconnect : c'.replacingConnect = c.replacingConnect) (hrepl : c'.replacing = 0) :
    c'.Dated reg now since := by
  have hnot : ∀ s ∈ parted,
      s ∉ State.waitSend :: State.acceptingWaitConnectMsgAuth :: State.dialing := by decide
  exact h.of_state rfl (hnot _ hmem) hsession hconnect
    (fun hone ↦ absurd (hrepl.symm.trans hone) (by decide)) (by simp [hrepl])

theorem dated_stop {c : Conn β} (h : c.Dated reg now since) : c.stop.Dated reg now since := by
  by_cases hs : c.state = .closed
  · rw [stop, if_pos hs]
    exact h
  · rw [stop, if_neg hs]
    exact h.of_parted (by simp [parted]) rfl rfl rfl

theorem dated_faultRetry {c : Conn β} (h : c.Dated reg now since) :
    c.faultRetry.Dated reg now since := by
  have hsession : c.faultRetry.peerGlobalSeq = c.peerGlobalSeq ∧
      c.faultRetry.replacingConnect = c.replacingConnect := by
    simp only [faultRetry]
    split_ifs <;> exact ⟨rfl, rfl⟩
  exact h.of_parted c.faultRetry_mem_parted hsession.1 hsession.2 (congrArg Prod.fst c.claim_faultRetry)

variable (enc) in
theorem doReplace_session (c : Conn β) (r : ReplaceInput) :
    (c.doReplace enc r).conn.peerGlobalSeq = c.peerGlobalSeq ∧
      (c.doReplace enc r).conn.replacingConnect = c.replacingConnect := by
  have htake : (c.takeOver r.random).peerGlobalSeq = c.peerGlobalSeq ∧
      (c.takeOver r.random).replacingConnect = c.replacingConnect := by
    rw [takeOver]
    split_ifs <;> exact ⟨rfl, rfl⟩
  obtain ⟨reply, -, -, ⟨out, h⟩ | ⟨k, b, h⟩⟩ := c.doReplace_cases enc r
  · rw [h]
    generalize hd : ({ c.takeOver r.random with outcomingBl := out, replacing := 0 } : Conn β) = d
    have hfault : d.fault.peerGlobalSeq = d.peerGlobalSeq ∧
        d.fault.replacingConnect = d.replacingConnect := by
      simp only [fault, stop, faultRetry]
      split_ifs <;> exact ⟨rfl, rfl⟩
    rw [← hd] at hfault
    rw [← hd]
    exact ⟨hfault.1.trans htake.1, hfault.2.trans htake.2⟩
  · rw [h]
    exact htake

/-- `do_replace` goes on with the session it takes over. -/
theorem dated_doReplace {c : Conn β} {r : ReplaceInput} (h : c.Dated reg now since)
    (hone : c.replacing = 1) : (c.doReplace enc r).conn.Dated reg now since := by
  obtain ⟨hsession, hconnect⟩ := doReplace_session enc c r
  obtain ⟨-, ⟨htwo, -, hs⟩ | ⟨hzero, -⟩⟩ := doReplace_claim enc c r
  · have hphase : (c.doReplace enc r).conn.phase ∉ State.dialing := by
      rw [phase_of_state hs (by decide)]
      decide
    exact {
      past := hsession ▸ h.past
      asked := fun hauth ↦ absurd (hs.symm.trans hauth) (by decide)
      dialed := fun _ hmem ↦ absurd hmem hphase
      answered := fun hans ↦ absurd hans.phase_mem hphase
      first := fun _ hrepl ↦ absurd (htwo.symm.trans hrepl) (by decide)
      second := fun _ ↦ ⟨by rw [hs]; decide, fun _ ↦ ⟨fun hreg ↦ by
        rw [hsession, hconnect]
        exact h.first hreg hone, fun hauth ↦ absurd (hs.symm.trans hauth) (by decide)⟩⟩ }
  · exact h.of_parted (doReplace_mem_parted enc c r) hsession hconnect hzero

end Conn

namespace Node

variable {β : Type} {enc : Frame → List β} {K : Codec} {flags : CrcFlags} {reg : Bool}
  {now since : ℕ}

open Conn

/-! ## The steps of a connection -/

/-- What a step of a connection meets: the peer has been dialed just now if it is dialed, it is honest,
and a connect that is completed while somebody has a claim is not newer than the claim. -/
structure Meets (reg : Bool) (now since : ℕ) (n : Node β) (e : Event β) : Prop where
  dial : ∀ inp, e = .pass inp → n.conn.state = .connecting → since = now
  honest : ∀ inp, e = .pass inp → n.conn.state ≠ .connecting → n.conn.honest now since inp.read = true
  ready : ∀ inp, e = .pass inp → reg = true → n.conn.state = .connectingReady →
    n.conn.replacing = 1 → n.conn.connectReply.globalSeq ≤ n.conn.replacingConnect.globalSeq

theorem dated_of_pass {n : Node β} {inp : Input β} {k : Caller} (hlater : n.conn.Later)
    (hd : n.conn.Dated reg now since) (hstaged : n.Staged reg) (hloc : n.loc = .process k)
    (hmeets : n.Meets reg now since (.pass inp)) :
    (n.conn.pass K flags enc inp).conn.Dated
      ((n.conn.pass K flags enc inp).effect.isRegister || reg) now since :=
  dated_pass hlater hd (hmeets.dial inp rfl) (hmeets.honest inp rfl) (hmeets.ready inp rfl)
    (hstaged.ask hloc)

/-- The number of a registered session grows with every pass. -/
theorem session_le_pass {n : Node β} {inp : Input β} {k : Caller}
    (hd : n.conn.Dated true now since) (hstaged : n.Staged true) (hloc : n.loc = .process k) :
    n.conn.peerGlobalSeq ≤ (n.conn.pass K flags enc inp).conn.peerGlobalSeq := by
  rcases peerGlobalSeq_pass enc K flags n.conn inp with heq | ⟨hs, heq⟩ | ⟨hs, hopening, -, heq⟩
  · exact heq.ge
  · have hphase : n.conn.phase = .connectingReady := phase_of_state hs (by decide)
    have hdialed : n.conn.peerGlobalSeq ≤ since := by
      apply hd.dialed rfl
      rw [hphase]
      decide
    have hanswered : since < n.conn.connectReply.globalSeq := by
      refine (hd.answered (Or.inl ?_)).1
      rw [hphase]
      decide
    rw [heq]
    exact hdialed.trans hanswered.le
  · have htwo : n.conn.replacing = 2 :=
      hstaged.second rfl (by rw [hs]; decide) hopening (by rw [hloc]; rfl)
    obtain ⟨hsession, hmsg⟩ := (hd.second htwo).2 hopening
    rw [heq]
    exact (hsession rfl).trans (hmsg hs)

/-- The step goes on from `c` to `c'` without turning the numbers back. -/
def Follows (reg : Bool) (now since : ℕ) (c c' : Conn β) : Prop :=
  c'.Dated reg now since ∧ (reg = true → c.peerGlobalSeq ≤ c'.peerGlobalSeq)

theorem Follows.of_shell {c c' c'' : Conn β} (h : Follows reg now since c c')
    (hshell : c''.shell = c'.shell) : Follows reg now since c c'' :=
  ⟨h.1.of_shell hshell, fun hreg ↦ (h.2 hreg).trans (congrArg Conn.peerGlobalSeq hshell).ge⟩

theorem Follows.of_eq {c c' c'' : Conn β} (h : Follows reg now since c c')
    (hd : c''.Dated reg now since) (hsession : c''.peerGlobalSeq = c'.peerGlobalSeq) :
    Follows reg now since c c'' :=
  ⟨hd, fun hreg ↦ (h.2 hreg).trans hsession.ge⟩

theorem follows_pass {n : Node β} {inp : Input β} {k : Caller} (hlater : n.conn.Later)
    (hd : n.conn.Dated reg now since) (hstaged : n.Staged reg) (hloc : n.loc = .process k)
    (hmeets : n.Meets reg now since (.pass inp)) :
    Follows reg now since n.conn (n.conn.pass K flags enc inp).conn := by
  refine ⟨(dated_of_pass hlater hd hstaged hloc hmeets).weaken fun hreg ↦ by simp [hreg],
    fun hreg ↦ ?_⟩
  subst hreg
  exact session_le_pass hd hstaged hloc

theorem follows_next {n n' : Node β} {e : Event β} (hlater : n.conn.Later)
    (hd : n.conn.Dated reg now since) (hstaged : n.Staged reg) (hmeets : n.Meets reg now since e)
    (hforeign : e.isForeign = false) (hnext : n.next enc K flags e = some n') :
    Follows reg now since n.conn n'.conn := by
  have hself : Follows reg now since n.conn n.conn := ⟨hd, fun _ ↦ le_rfl⟩
  have hstop {c : Conn β} : c.stop.peerGlobalSeq = c.peerGlobalSeq := by
    rw [stop]
    split_ifs <;> rfl
  cases change_next hnext with
  | quiet e n' he hshell hloc => exact hself.of_shell hshell
  | connects m concurrent gather n' hs hserver hstopping hshell hloc =>
    have hd' : ({ n.conn with state := .connecting } : Conn β).Dated reg now since :=
      hd.of_state (s := .connecting) rfl (by decide) rfl rfl id (hd.replacing_ne_two hs (by decide))
    exact (hself.of_eq hd' rfl).of_shell hshell
  | setStopping => exact ⟨⟨hd.past, hd.asked, hd.dialed, hd.answered, hd.first, hd.second⟩, hself.2⟩
  | markDisposable =>
    have hlossy : ({ n.conn with policy := { n.conn.policy with lossy := true } } : Conn β).Dated reg
        now since := ⟨hd.past, hd.asked, hd.dialed, hd.answered, hd.first, hd.second⟩
    simp only [Conn.markDisposable]
    split_ifs
    · exact hself.of_eq (dated_stop hlossy) hstop
    · exact hself.of_eq hlossy rfl
  | cStop hidle hstopping => exact hself.of_eq (dated_stop hd) hstop
  | leave k n' hloc hshell hidle => exact (hself.of_eq (dated_stop hd) hstop).of_shell hshell
  | handOver | handleReplaceLate | handleReplace => exact absurd hforeign (by simp [Event.isForeign])
  | passes inp k n' hloc hflow hshell hloc' =>
    exact (follows_pass hlater hd hstaged hloc hmeets).of_shell hshell
  | waits inp k close n' hloc hflow hshell hloc' =>
    exact (follows_pass hlater hd hstaged hloc hmeets).of_shell hshell
  | givesUp e c close n' hup hafter =>
    have hc : Follows reg now since n.conn c := by
      cases hup with
      | pass inp k hloc hflow => exact follows_pass hlater hd hstaged hloc hmeets
      | passClose inp k hloc hflow => exact follows_pass hlater hd hstaged hloc hmeets
      | wake => exact hself
      | write => exact hself.of_shell rfl
    cases hafter with
    | replaced r hrepl hshell hloc =>
      exact (hc.of_eq (dated_doReplace hc.1 hrepl) (doReplace_session enc c r).1).of_shell hshell
    | parts k hrepl hwhy hshell hloc => exact hc.of_shell hshell
    | faults hrepl hclose hclosed hstops hshell hloc =>
      refine (hc.of_eq (dated_faultRetry hc.1) ?_).of_shell hshell
      simp only [faultRetry]
      split_ifs <;> rfl
    | closed hrepl hclosed hshell hloc => exact hc.of_shell hshell

/-- The step that registers a connection dates it. -/
theorem dated_of_register {n : Node β} {e : Event β} {res : Result β} (hlater : n.conn.Later)
    (hd : n.conn.Dated reg now since) (hstaged : n.Staged reg) (hmeets : n.Meets reg now since e)
    (hstep : n.step enc K flags e = some res) (hregister : res.effect = .register) :
    res.node.conn.Dated true now since := by
  rcases effect_of_step hstep with hnone | ⟨inp, k, rfl, hloc, -, heffect⟩
  · exact absurd (hnone.symm.trans hregister) (by simp)
  · have heffect' : (n.conn.pass K flags enc inp).effect = .register :=
      heffect.symm.trans hregister
    have hflow := (opening_of_register heffect').2
    have hdated : (n.conn.pass K flags enc inp).conn.Dated
        ((n.conn.pass K flags enc inp).effect.isRegister || reg) now since :=
      dated_of_pass hlater hd hstaged hloc hmeets
    rw [heffect'] at hdated
    cases (Step.of_step hstep).2 with
    | pass inp k hloc =>
      simp only [processPass, hflow]
      exact hdated.of_shell (shell_again ..)

end Node

/-! ## The counter

A model of the calls one after the other, each with an argument of its own. `FreshSeqs` is what the
comment of the function promises. -/

/-- What `get_global_seq` returns when it is called with these arguments, one after the other. -/
def getGlobalSeqs : ℕ → List ℕ → List ℕ
  | _, [] => []
  | gseq, old :: olds => getGlobalSeq gseq old :: getGlobalSeqs (getGlobalSeq gseq old) olds

/-- No call finds the counter at the largest number, or has it as its argument. -/
def NoWrap : ℕ → List ℕ → Prop
  | _, [] => True
  | gseq, old :: olds => max old gseq + 1 < 2 ^ 32 ∧ NoWrap (max old gseq + 1) olds

instance decidableNoWrap (gseq : ℕ) (olds : List ℕ) : Decidable (NoWrap gseq olds) :=
  match olds with
  | [] => isTrue trivial
  | old :: olds =>
    have := decidableNoWrap (max old gseq + 1) olds
    inferInstanceAs (Decidable (_ ∧ _))

/-- The returned numbers are new: greater than the arguments and than all numbers before, so that an
attempt with such a number is not told RETRY_GLOBAL by the connection that has asked for it. -/
structure FreshSeqs (β : Type) (gseq : ℕ) (olds : List ℕ) : Prop where
  greater : List.Forall₂ (· < ·) olds (getGlobalSeqs gseq olds)
  above : ∀ new ∈ getGlobalSeqs gseq olds, gseq < new
  increasing : (getGlobalSeqs gseq olds).Pairwise (· < ·)
  accepted : ∀ x ∈ olds.zip (getGlobalSeqs gseq olds), ∀ (c e : Conn β) (m : MsgConnect) peerLess,
    e.peerGlobalSeq = x.1 → m.globalSeq = x.2 →
      ∀ reply, c.judge (some e) m peerLess ≠ .reply Tag.retryGlobal reply

theorem getGlobalSeq_of_lt {gseq old : ℕ} (h : max old gseq + 1 < 2 ^ 32) :
    getGlobalSeq gseq old = max old gseq + 1 :=
  Nat.mod_eq_of_lt h

/-- At the largest number the counter starts again. -/
theorem getGlobalSeq_of_not_lt {gseq old : ℕ} (hgseq : gseq < 2 ^ 32) (hold : old < 2 ^ 32)
    (h : ¬max old gseq + 1 < 2 ^ 32) : getGlobalSeq gseq old = 0 := by
  have hmax : max old gseq + 1 = 2 ^ 32 := by omega
  rw [getGlobalSeq, inc32, hmax, Nat.mod_self]

/-- RETRY_GLOBAL is only for smaller numbers. -/
theorem judge_ne_retryGlobal {β : Type} {c e : Conn β} {m : MsgConnect} {peerLess : Bool}
    (h : e.peerGlobalSeq < m.globalSeq) (reply : MsgConnectReply) :
    c.judge (some e) m peerLess ≠ .reply Tag.retryGlobal reply := by
  intro heq
  have hjudges := Conn.judges_judge c (some e) m peerLess
  rw [heq] at hjudges
  cases hjudges with
  | old _ hglobal => omega

theorem fresh_of_noWrap {gseq : ℕ} {olds : List ℕ} (h : NoWrap gseq olds) :
    List.Forall₂ (· < ·) olds (getGlobalSeqs gseq olds) ∧
      (∀ new ∈ getGlobalSeqs gseq olds, gseq < new) ∧
      (getGlobalSeqs gseq olds).Pairwise (· < ·) := by
  induction olds generalizing gseq with
  | nil => exact ⟨.nil, fun _ hmem ↦ absurd hmem List.not_mem_nil, .nil⟩
  | cons old olds ih =>
    obtain ⟨hlt, hrest⟩ := h
    obtain ⟨hgreater, habove, hincreasing⟩ := ih hrest
    have hnew := getGlobalSeq_of_lt hlt
    rw [← hnew] at hgreater habove hincreasing
    rw [getGlobalSeqs]
    refine ⟨.cons ?_ hgreater, List.forall_mem_cons.mpr ⟨?_, fun new hmem ↦ ?_⟩,
      List.pairwise_cons.mpr ⟨habove, hincreasing⟩⟩
    · rw [hnew]
      omega
    · rw [hnew]
      omega
    · have hlarger := habove new hmem
      omega

/-- A number above its argument means that the counter has not started again. -/
theorem noWrap_of_greater {gseq : ℕ} {olds : List ℕ} (hgseq : gseq < 2 ^ 32)
    (holds : ∀ old ∈ olds, old < 2 ^ 32)
    (h : List.Forall₂ (· < ·) olds (getGlobalSeqs gseq olds)) : NoWrap gseq olds := by
  induction olds generalizing gseq with
  | nil => trivial
  | cons old olds ih =>
    obtain ⟨hold, holds⟩ := List.forall_mem_cons.mp holds
    rw [getGlobalSeqs, List.forall₂_cons] at h
    by_cases hlt : max old gseq + 1 < 2 ^ 32
    · rw [getGlobalSeq_of_lt hlt] at h
      exact ⟨hlt, ih hlt holds h.2⟩
    · rw [getGlobalSeq_of_not_lt hgseq hold hlt] at h
      exact absurd h.1 (Nat.not_lt_zero old)

/-- **Global sequence numbers are fresh** exactly as long as the counter does not start again. -/
theorem freshSeqs_iff {β : Type} {gseq : ℕ} {olds : List ℕ} (hgseq : gseq < 2 ^ 32)
    (holds : ∀ old ∈ olds, old < 2 ^ 32) : FreshSeqs β gseq olds ↔ NoWrap gseq olds := by
  constructor
  · intro hfresh
    exact noWrap_of_greater hgseq holds hfresh.greater
  · intro hwrap
    obtain ⟨hgreater, habove, hincreasing⟩ := fresh_of_noWrap hwrap
    refine ⟨hgreater, habove, hincreasing, fun x hx c e m peerLess he hm reply ↦ ?_⟩
    have hlt : x.1 < x.2 := List.forall₂_zip hgreater hx
    exact judge_ne_retryGlobal (by omega) reply

/-- Three calls, one on behalf of a peer that has asked for a larger number. -/
theorem freshSeqs_three : FreshSeqs Frame 0 [0, 41, 0] :=
  (freshSeqs_iff (by decide) (by decide)).mpr (by decide)

/-- **A peer can make the counter start again**, with one RETRY_GLOBAL reply. -/
theorem largest_number_starts_again :
    ¬∀ olds : List ℕ, (∀ old ∈ olds, old < 2 ^ 32) → FreshSeqs Frame 0 olds := by
  intro hall
  have hfresh := hall [2 ^ 32 - 1] (by decide)
  have hwrap := noWrap_of_greater (by decide) (by decide) hfresh.greater
  exact absurd hwrap (by decide)

end AsyncMessenger
