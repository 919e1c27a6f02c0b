import AsyncMessenger.Refusal

/-!
# Races with an open connection

If the connect message carries the `connect_seq` of the registered connection, `handle_connect_msg` asks
whether that connection is open or in standby: its peer has lost the session then, and has to come again
with a larger number. In any other state there is a race between two attempts to connect.

An open connection is in `STATE_OPEN` only between two frames. While it reads one it is in another state,
and the test takes it for an attempt. So the answer depends on how much of a frame has arrived.

The decision is a function of what `handle_connect_msg` sees of the two connections (`Decision`). It
is shown once that the code does what it decides, with the effects on both of them. After that two
states of the messenger that differ in how much of a frame has been read are compared by their
decisions alone.
-/

namespace AsyncMessenger

/-- `STATE_OPEN`, and the states of a connection that reads a frame. -/
def State.isOpened (s : State) : Bool :=
  opened.code ≤ s.code && s.code ≤ openMessageDispatch.code

/-- What `handle_connect_msg` decides. -/
inductive Decision
  /-- A refusal, with its tag and the `connect_seq` of the reply. -/
  | answer (tag connectSeq : ℕ)
  | replace (resetSession resetFromPeer : Bool)
  | open
  deriving DecidableEq, Repr

/-- The decision a verdict stands for. -/
def Verdict.decision (connect : MsgConnect) : Verdict → Decision
  | .reply tag r => .answer tag r.connectSeq
  | .wait => .answer Tag.wait 0
  | .busy => .answer Tag.retrySession (inc32 connect.connectSeq)
  | .replace resetSession resetFromPeer => .replace resetSession resetFromPeer
  | .open => .open

namespace Conn

variable {β : Type} {enc : Frame → List β}

/-- What `handle_connect_msg` decides: before the registered connection counts, the versions, the features
and the authorizer. -/
def decision (c : Conn β) (inp : Input β) : Decision :=
  if c.connectMsg.protocolVersion ≠ inp.protoVersion then .answer Tag.badProtoVer 0
  else if featMissing (c.requireSignatures inp).policy.featuresRequired c.connectMsg.features ≠ 0 then
    .answer Tag.features 0
  else if !inp.authorizerValid then .answer Tag.badAuthorizer 0
  else ((c.requireSignatures inp).judge inp.existing c.connectMsg inp.peerLess).decision c.connectMsg

/-- The outcome is that of the decision. -/
def CarriesOut (enc : Frame → List β) (c : Conn β) (inp : Input β) (o : Outcome β) : Decision → Prop
  | .answer tag connectSeq => ∃ (r : MsgConnectReply) (auth : Bytes), r.tag = tag ∧
    r.connectSeq = connectSeq ∧ o.wrote ++ o.conn.outcomingBl = c.outcomingBl ++ enc (.reply r auth)
  | .replace resetSession resetFromPeer => ∀ e, inp.existing = some e →
    o.effect = .replace (e.markReplacing c.sd c.connectMsg inp.authorizerReply resetSession
      resetFromPeer)
  | .open => o.effect = .register

theorem carriesOut_refuse (c : Conn β) (tag : ℕ) (m : MsgConnect) (reply : MsgConnectReply)
    (auth : Bytes) (inp : Input β) (effect : Effect β) :
    CarriesOut enc c inp (c.refuse enc tag m reply auth inp effect) (.answer tag reply.connectSeq) := by
  let reply' : MsgConnectReply := { reply with protocolVersion := inp.protoVersion }
  rw [refuse]
  rcases c.replyAccept_cases enc tag m reply' auth inp.kernel with h | ⟨k, evWrite, h⟩
  · rw [h]
    exact ⟨c.acceptReply tag m reply' auth, auth, rfl, rfl, rfl⟩
  · rw [h]
    exact ⟨c.acceptReply tag m reply' auth, auth, rfl, rfl, List.take_append_drop k _⟩

theorem CarriesOut.of_requireSignatures {c : Conn β} {inp : Input β} {o : Outcome β} {d : Decision}
    (h : CarriesOut enc (c.requireSignatures inp) inp o d) : CarriesOut enc c inp o d := by
  obtain ⟨p, -, heq⟩ := requireSignatures_eq c inp
  rw [heq] at h
  cases d <;> exact h

/-- **`handle_connect_msg` does what it decides.** -/
theorem carriesOut_handleConnectMsg (c : Conn β) (inp : Input β) :
    CarriesOut enc c inp (c.handleConnectMsg enc inp) (c.decision inp) := by
  rw [decision, handleConnectMsg]
  by_cases hproto : c.connectMsg.protocolVersion ≠ inp.protoVersion
  · rw [if_pos hproto, if_pos hproto]
    exact carriesOut_refuse c _ _ _ _ inp _
  rw [if_neg hproto, if_neg hproto]
  apply CarriesOut.of_requireSignatures
  dsimp only
  have hconnect : (c.requireSignatures inp).connectMsg = c.connectMsg := by
    obtain ⟨p, -, heq⟩ := requireSignatures_eq c inp
    rw [heq]
  rw [← hconnect]
  generalize c.requireSignatures inp = c
  by_cases hfeat : featMissing c.policy.featuresRequired c.connectMsg.features ≠ 0
  · rw [if_pos hfeat, if_pos hfeat]
    exact carriesOut_refuse c _ _ _ _ inp _
  rw [if_neg hfeat, if_neg hfeat]
  by_cases hauth : (!inp.authorizerValid) = true
  · rw [if_pos hauth, if_pos hauth]
    exact carriesOut_refuse c _ _ _ _ inp _
  rw [if_neg hauth, if_neg hauth]
  generalize c.judge inp.existing c.connectMsg inp.peerLess = v
  cases v with
  | reply tag reply => exact carriesOut_refuse c tag _ reply _ inp _
  | wait => exact carriesOut_refuse c Tag.wait _ {} _ inp _
  | busy =>
    have hrefuse : CarriesOut enc c inp (c.refuse enc Tag.retrySession c.connectMsg
        { connectSeq := inc32 c.connectMsg.connectSeq } inp.authorizerReply inp .none)
        (.answer Tag.retrySession (inc32 c.connectMsg.connectSeq)) := carriesOut_refuse c _ _ _ _ inp _
    rw [carryOut, refuseBusy]
    dsimp only
    split_ifs <;> exact hrefuse
  | replace resetSession resetFromPeer =>
    intro e he
    simp only [carryOut, he]
  | «open» => rfl

/-- A peer that is admitted comes with the `connect_seq` of the registered connection, which does not
have to give way for another reason. -/
structure Level (c : Conn β) (inp : Input β) (e : Conn β) : Prop where
  admits : c.Admits inp
  globalSeq : e.peerGlobalSeq ≤ c.connectMsg.globalSeq
  lossy : e.policy.lossy = false
  connectSeq : c.connectMsg.connectSeq = e.connectSeq

/-- `handle_connect_msg` gets to its branch for races. -/
def Races (c : Conn β) (inp : Input β) : Prop :=
  ∃ e, inp.existing = some e ∧ c.Level inp e ∧ ¬(e.state = .opened ∨ e.state = .standby)

/-- The connection in another state. -/
def inState (e : Conn β) (s : State) : Conn β := { e with state := s }

variable {c e : Conn β} {inp : Input β} {s : State}

theorem busy_inState (e : Conn β) (hs : s.isOpened = true) :
    (e.inState s).busy = (e.replacing != 0 || e.stopping) := by
  have hne : s ≠ .closed ∧ s ≠ .openTagClose := by
    revert hs
    cases s <;> decide
  simp only [inState, busy, beq_false_of_ne hne.1, beq_false_of_ne hne.2, Bool.or_false]

/-- The connection gives way, if it can. -/
def giveWay (e : Conn β) : Verdict :=
  if e.replacing != 0 || e.stopping then .busy else .replace false false

theorem judgeExisting_of_level {m : MsgConnect} {peerLess : Bool}
    (hglobal : e.peerGlobalSeq ≤ m.globalSeq) (hlossy : e.policy.lossy = false)
    (heq : m.connectSeq = e.connectSeq) :
    c.judgeExisting e m peerLess =
      if e.state = .opened ∨ e.state = .standby then
        if c.policy.resetcheck = true ∧ e.connectSeq = 0 then .replace false false
        else .reply Tag.retrySession { connectSeq := inc32 e.connectSeq }
      else if peerLess = true ∨ e.policy.server = true then .replace false false
      else .wait := by
  have hreset : ¬(m.connectSeq = 0 ∧ 0 < e.connectSeq) := by omega
  have hbehind : ¬m.connectSeq < e.connectSeq := by omega
  rw [judgeExisting, if_neg (Nat.not_lt.mpr hglobal), if_neg (by simp [hlossy]), if_neg hreset,
    if_neg hbehind, if_pos heq]

theorem judgeExisting_of_not_level {e' : Conn β} {m : MsgConnect} {peerLess : Bool}
    (hglobal : e'.peerGlobalSeq = e.peerGlobalSeq) (hpolicy : e'.policy = e.policy)
    (hconnect : e'.connectSeq = e.connectSeq)
    (h : ¬(e.peerGlobalSeq ≤ m.globalSeq ∧ e.policy.lossy = false ∧ m.connectSeq = e.connectSeq)) :
    c.judgeExisting e' m peerLess = c.judgeExisting e m peerLess := by
  rw [judgeExisting, judgeExisting, hglobal, hpolicy, hconnect]
  by_cases hold : m.globalSeq < e.peerGlobalSeq
  · rw [if_pos hold, if_pos hold]
  rw [if_neg hold, if_neg hold]
  by_cases hlossy : e.policy.lossy = true
  · rw [if_pos hlossy, if_pos hlossy]
  rw [if_neg hlossy, if_neg hlossy]
  have hne : ¬m.connectSeq = e.connectSeq :=
    fun heq ↦ h ⟨Nat.not_lt.mp hold, by simpa using hlossy, heq⟩
  rw [if_neg hne, if_neg hne]

/-- **Two connections with the same `connect_seq`**: the test for an open connection is a test for
`STATE_OPEN`. -/
theorem judge_of_level (c : Conn β) {m : MsgConnect} (peerLess : Bool)
    (hglobal : e.peerGlobalSeq ≤ m.globalSeq) (hlossy : e.policy.lossy = false)
    (heq : m.connectSeq = e.connectSeq) (hs : s.isOpened = true) :
    c.judge (some (e.inState s)) m peerLess =
      if s = .opened then
        if c.policy.resetcheck = true ∧ e.connectSeq = 0 then e.giveWay
        else .reply Tag.retrySession { connectSeq := inc32 e.connectSeq }
      else if peerLess = true ∨ e.policy.server = true then e.giveWay
      else .wait := by
  have hstandby : s ≠ .standby := by
    rintro rfl
    exact absurd hs (by decide)
  have hexisting : c.judgeExisting (e.inState s) m peerLess =
      if s = .opened ∨ s = .standby then
        if c.policy.resetcheck = true ∧ e.connectSeq = 0 then .replace false false
        else .reply Tag.retrySession { connectSeq := inc32 e.connectSeq }
      else if peerLess = true ∨ e.policy.server = true then .replace false false
      else .wait := judgeExisting_of_level hglobal hlossy heq
  simp only [judge]
  rw [hexisting, busy_inState e hs, giveWay]
  simp only [hstandby, or_false]
  split_ifs <;> rfl

/-- Otherwise the state does not matter. -/
theorem judge_of_not_level {m : MsgConnect} {peerLess : Bool}
    (h : ¬(e.peerGlobalSeq ≤ m.globalSeq ∧ e.policy.lossy = false ∧ m.connectSeq = e.connectSeq))
    (hs : s.isOpened = true) :
    c.judge (some (e.inState s)) m peerLess = c.judge (some (e.inState .opened)) m peerLess := by
  have hexisting (s' : State) : c.judgeExisting (e.inState s') m peerLess =
      c.judgeExisting e m peerLess := judgeExisting_of_not_level rfl rfl rfl h
  simp only [judge]
  rw [hexisting, hexisting, busy_inState e hs, busy_inState e rfl]

/-! ## The decision

`AnswersAlike` quantifies over every state that the registered connection may be in while its
session is open. -/

/-- What the pass meets if this connection is registered for the peer. -/
def meeting (inp : Input β) (e : Conn β) : Input β := { inp with existing := some e }

theorem admits_meeting : c.Admits (meeting inp e) ↔ c.Admits inp :=
  ⟨fun h ↦ ⟨h.protocol, h.features, h.authorizer⟩, fun h ↦ ⟨h.protocol, h.features, h.authorizer⟩⟩

theorem decision_of_admits (h : c.Admits inp) : c.decision inp =
    ((c.requireSignatures inp).judge inp.existing c.connectMsg inp.peerLess).decision c.connectMsg := by
  rw [decision, if_neg (not_not.mpr h.protocol), if_neg (not_not.mpr h.features),
    if_neg (by simp [h.authorizer])]

theorem decision_of_not_admits (e' : Conn β) (h : ¬c.Admits inp) :
    c.decision (meeting inp e) = c.decision (meeting inp e') := by
  rw [decision, decision]
  by_cases hproto : c.connectMsg.protocolVersion ≠ inp.protoVersion
  · exact (if_pos hproto).trans (if_pos hproto).symm
  refine (if_neg hproto).trans ((if_neg hproto).trans ?_).symm
  by_cases hfeat :
      featMissing (c.requireSignatures inp).policy.featuresRequired c.connectMsg.features ≠ 0
  · exact (if_pos hfeat).trans (if_pos hfeat).symm
  refine (if_neg hfeat).trans ((if_neg hfeat).trans ?_).symm
  have hauth : (!inp.authorizerValid) = true := by
    by_contra hvalid
    exact h ⟨not_not.mp hproto, not_not.mp hfeat, by simpa using hvalid⟩
  exact (if_pos hauth).trans (if_pos hauth).symm

/-- In any two open states the decision is the same. -/
def DecidesAlike (c : Conn β) (inp : Input β) (e : Conn β) : Prop :=
  ∀ s s' : State, s.isOpened = true → s'.isOpened = true →
    c.decision (meeting inp (e.inState s)) = c.decision (meeting inp (e.inState s'))

theorem decidesAlike_of_not_level (h : ¬c.Level inp e) : c.DecidesAlike inp e := by
  intro s s' hs hs'
  by_cases hadmits : c.Admits inp
  · have hnot : ¬(e.peerGlobalSeq ≤ c.connectMsg.globalSeq ∧ e.policy.lossy = false ∧
        c.connectMsg.connectSeq = e.connectSeq) :=
      fun hand ↦ h ⟨hadmits, hand.1, hand.2.1, hand.2.2⟩
    rw [decision_of_admits (admits_meeting.mpr hadmits),
      decision_of_admits (admits_meeting.mpr hadmits)]
    exact congrArg _ ((judge_of_not_level hnot hs).trans (judge_of_not_level hnot hs').symm)
  · exact decision_of_not_admits _ hadmits

/-- The registered connection would give way in `STATE_OPEN` too, or it gives way in no state. -/
def Indifferent (c : Conn β) (inp : Input β) (e : Conn β) : Prop :=
  (inp.peerLess = true ∨ e.policy.server = true) ∧
    ((c.policy.resetcheck = true ∧ e.connectSeq = 0) ∨ (e.replacing != 0 || e.stopping) = true)

theorem decision_of_level (h : c.Level inp e) (hs : s.isOpened = true) :
    c.decision (meeting inp (e.inState s)) =
      if s = .opened then
        if c.policy.resetcheck = true ∧ e.connectSeq = 0 then e.giveWay.decision c.connectMsg
        else .answer Tag.retrySession (inc32 c.connectMsg.connectSeq)
      else if inp.peerLess = true ∨ e.policy.server = true then e.giveWay.decision c.connectMsg
      else .answer Tag.wait 0 := by
  have hcheck : (c.requireSignatures inp).policy.resetcheck = c.policy.resetcheck := by
    rw [requireSignatures]
    split_ifs <;> rfl
  have hjudge := judge_of_level (c.requireSignatures inp) inp.peerLess h.globalSeq h.lossy
    h.connectSeq hs
  rw [hcheck, ← h.connectSeq] at hjudge
  rw [decision_of_admits (admits_meeting.mpr h.admits), ← h.connectSeq]
  refine (congrArg _ hjudge).trans ?_
  split_ifs <;> rfl

theorem decision_giveWay (e : Conn β) (m : MsgConnect) : e.giveWay.decision m =
    if (e.replacing != 0 || e.stopping) = true then .answer Tag.retrySession (inc32 m.connectSeq)
    else .replace false false := by
  rw [giveWay]
  split_ifs <;> rfl

/-- The decision depends on how much of a frame has been read, unless the connection is indifferent. -/
theorem decidesAlike_iff : c.DecidesAlike inp e ↔ c.Level inp e → c.Indifferent inp e := by
  constructor
  · intro halike hlevel
    have hsame := halike .opened .openMessageHeader rfl rfl
    rw [decision_of_level hlevel rfl, decision_of_level hlevel rfl, if_pos rfl,
      if_neg (by decide : ¬State.openMessageHeader = .opened), decision_giveWay] at hsame
    rw [Indifferent]
    split_ifs at hsame <;> simp_all [Tag.retrySession, Tag.wait]
  · intro himp
    by_cases hlevel : c.Level inp e
    · obtain ⟨hwins, hway⟩ := himp hlevel
      -- Both sides give way, or both refuse with the same number.
      have hboth {s : State} (hs : s.isOpened = true) :
          c.decision (meeting inp (e.inState s)) = e.giveWay.decision c.connectMsg := by
        rw [decision_of_level hlevel hs, if_pos hwins, decision_giveWay]
        rcases hway with hidle | hbusy
        · rw [if_pos hidle, ite_self]
        · rw [if_pos hbusy, ite_self, ite_self]
      exact fun s s' hs hs' ↦ (hboth hs).trans (hboth hs').symm
    · exact decidesAlike_of_not_level hlevel

end Conn

namespace Messenger

variable {α β : Type} [DecidableEq α]

/-- What `handle_connect_msg` of connection `i` decides. -/
def decision (s : Messenger α β) (conf : SignatureConf) (i : ℕ) (inp : Input β) : Decision :=
  (s.member i).node.conn.decision (s.connectInput conf i inp)

/-- `handle_connect_msg` of connection `i` gets to its branch for races. -/
def Races (s : Messenger α β) (conf : SignatureConf) (i : ℕ) (inp : Input β) : Prop :=
  (s.member i).node.conn.Races (s.connectInput conf i inp)

/-- Connection `j` is in another state. -/
def inState (s : Messenger α β) (j : ℕ) (st : State) : Messenger α β :=
  s.putConn j ((s.member j).node.conn.inState st)

/-- **The answer to a connect** to which connection `j` is registered: it is the same in any two open
states of `j`, and an open connection is never taken for a race. -/
structure AnswersAlike (s : Messenger α β) (conf : SignatureConf) (i j : ℕ) (inp : Input β) : Prop where
  decision : ∀ st st' : State, st.isOpened = true → st'.isOpened = true →
    (s.inState j st).decision conf i inp = (s.inState j st').decision conf i inp
  race : ∀ st : State, st.isOpened = true → ¬(s.inState j st).Races conf i inp

variable {s : Messenger α β} {conf : SignatureConf} {i j : ℕ} {inp : Input β}

omit [DecidableEq α] in
theorem member_inState (h : s.existing i = some j) (st : State) :
    (s.inState j st).member i = s.member i :=
  member_put_of_ne (ne_of_existing h).symm _

omit [DecidableEq α] in
theorem connectInput_inState (h : s.existing i = some j) (st : State) :
    (s.inState j st).connectInput conf i inp =
      Conn.meeting (s.connectInput conf i inp) ((s.member j).node.conn.inState st) := by
  have hmember := member_inState h st
  have hexisting : (s.inState j st).existing i = some j := by
    rw [existing, hmember]
    exact h
  have hconn : ((s.inState j st).member j).node.conn = (s.member j).node.conn.inState st := by
    rw [inState, putConn, member_put_self]
    rfl
  rw [connectInput, connectInput, hmember, fillInput, hexisting, Option.map_some, hconn]
  rfl

omit [DecidableEq α] in
/-- **The answer does not depend on how much of a frame has been read** exactly if the connect message
does not carry the `connect_seq` of the registered connection, or is refused or wins for another reason. -/
theorem answersAlike_iff (h : s.existing i = some j) :
    s.AnswersAlike conf i j inp ↔
      ¬(s.member i).node.conn.Level (s.connectInput conf i inp) (s.member j).node.conn := by
  constructor
  · intro halike hlevel
    have hattempt : ¬(State.openMessageHeader = .opened ∨ State.openMessageHeader = .standby) := by
      decide
    refine halike.race .openMessageHeader rfl ⟨(s.member j).node.conn.inState .openMessageHeader, ?_⟩
    rw [member_inState h, connectInput_inState h]
    exact ⟨rfl, ⟨Conn.admits_meeting.mpr hlevel.admits, hlevel.globalSeq, hlevel.lossy,
      hlevel.connectSeq⟩, hattempt⟩
  · intro hlevel
    constructor
    · intro st st' hst hst'
      rw [decision, decision, member_inState h, member_inState h, connectInput_inState h,
        connectInput_inState h]
      exact Conn.decidesAlike_of_not_level hlevel st st' hst hst'
    · intro st hst hrace
      rw [Races, member_inState h, connectInput_inState h] at hrace
      obtain ⟨e, he, hlevel', -⟩ := hrace
      obtain rfl := Option.some.inj he
      exact hlevel ⟨Conn.admits_meeting.mp hlevel'.admits, hlevel'.globalSeq, hlevel'.lossy,
        hlevel'.connectSeq⟩

/-- Connection 0 accepts a connect message of the peer to which connection 1 is open. -/
def reconnect (connectSeq : ℕ) : Messenger ℕ Frame where
  count := 2
  member i :=
    if i = 0 then
      { peerAddr := 7
        node := { conn := { state := .acceptingWaitConnectMsgAuth, connectMsg := { connectSeq } } } }
    else
      { peerAddr := 7
        node := { conn := { state := .opened, connectSeq := 1, policy := .losslessPeer 0 0 } } }
  conns a := if a = 7 then some 1 else none

/-- A peer that has gone on is answered alike. -/
theorem answersAlike_behind : (reconnect 0).AnswersAlike ⟨false, false, false⟩ 0 1 {} :=
  (answersAlike_iff rfl).mpr fun h ↦ absurd h.connectSeq (by decide)

/-- The peer has lost the session and comes with the number both sides know. Between two frames of the
old session it is told to retry with a larger number, in the middle of a frame to wait. -/
theorem half_a_frame_is_a_race :
    ¬∀ (s : Messenger ℕ Frame) (conf : SignatureConf) (i j : ℕ) (inp : Input Frame),
      s.existing i = some j → s.AnswersAlike conf i j inp := by
  intro h
  have halike := (h (reconnect 1) ⟨false, false, false⟩ 0 1 {} rfl).decision
    .opened .openMessageReadFront rfl rfl
  exact absurd halike (by decide)

end Messenger

end AsyncMessenger
