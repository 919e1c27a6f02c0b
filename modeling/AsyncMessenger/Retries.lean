import AsyncMessenger.Moves

/-!
# The exchange of connect messages

A client that has dialled sends connect messages until the server answers READY, SEQ or WAIT. In
between, the server may ask for a larger `global_seq` or `connect_seq`, ask for a reset of the
session, or hand the socket to the connection registered for the client, which asks for one more
attempt from its `do_replace`. This module bounds how often.

## The model

`Exchange` is the client, the connection that reads its socket, and the registered connection, on a
server where nothing else happens. One round is one connect message, its answer, and what the client
makes of it, each by the passes of `_process_connection`; nothing of the two functions is left out
or abridged. `Terms` has what else the passes meet, which may be different each time.

## The bound

The verdict of `handle_connect_msg` is a function of the two pairs of numbers (`verdict`), so the
lemmas on rounds say which verdict follows on which. RETRY_GLOBAL is answered once, as the next
message carries the number that was asked for. So is RETRY_SESSION, and so is a reset, after which
the client has no session. And a registered connection that has been replaced accepts the next
message whatever it says. Each of them is followed by fewer than before, four messages in all.
-/

namespace AsyncMessenger

/-- A frame as one unit of output. -/
def Frame.whole (f : Frame) : List Frame := [f]

/-- The answers that end an exchange of connect messages. -/
def Tag.conclusive : List ℕ := [Tag.ready, Tag.seq, Tag.wait]

/-- What the two sides bring along. What may be different for each connect message depends on the number
of messages sent before. -/
structure Terms where
  hostType : ℕ
  protoVersion : ℕ
  /-- The server's policy for the type of the client. -/
  policy : Policy
  requireSignatures : Bool
  /-- `peer_addr < async_msgr->get_myaddr()`, on the server. -/
  peerLess : Bool
  /-- The client's `get_authorizer`. -/
  authorizer : ℕ → Option Bytes
  /-- What `verify_authorizer` fills in. -/
  authorizerReply : ℕ → Bytes
  /-- The random bytes of a session reset of the client. -/
  random : ℕ → ℕ
  /-- What the `do_replace` on the server obtains from outside. -/
  replaceRandom : ℕ
  junk : MsgConnectReply

/-- A client and a server in the middle of a handshake. -/
structure Exchange where
  client : Conn Frame
  /-- The counter of the client's messenger. -/
  gseq : ℕ
  /-- The connection that reads the socket. -/
  server : Conn Frame
  /-- The connection registered for the client, if it is another one. -/
  existing : Option (Conn Frame)
  /-- The counter of the server's messenger. -/
  serverGseq : ℕ
  /-- The connect messages sent so far. -/
  sent : ℕ := 0

namespace Exchange

variable (t : Terms)

/-- What a pass of the client meets. The kernel takes every frame. -/
def clientInput (x : Exchange) (read : Read) : Input Frame :=
  { read
    kernel := some 2
    gseq := x.gseq
    newAuthorizer := t.authorizer x.sent
    random := t.random x.sent
    hostType := t.hostType
    protoVersion := t.protoVersion }

/-- What a pass of the server meets: the authorizer is accepted. -/
def serverInput (x : Exchange) (read : Read) : Input Frame :=
  { read
    kernel := some 2
    gseq := x.serverGseq
    newPolicy := t.policy
    protoVersion := t.protoVersion
    requireSignatures := t.requireSignatures
    authorizerReply := t.authorizerReply x.sent
    existing := x.existing
    peerLess := t.peerLess }

/-- The client sends its connect message. -/
def ask (x : Exchange) : Option (MsgConnect × Bytes × Exchange) :=
  let o := x.client.processConnection Frame.whole (x.clientInput t .again)
  match o.flow, o.wrote with
  | .next, [.connect m auth] => some (m, auth, { x with client := o.conn, sent := x.sent + 1 })
  | _, _ => none

/-- The reply among the frames the server has written. -/
def replied (x : Exchange) : List Frame → Option (MsgConnectReply × Bytes × Exchange)
  | .reply r auth :: _ => some (r, auth, x)
  | _ => none

/-- The open part of the server's `handle_connect_msg`: it notifies the dispatchers, unless it has done so
before, and sends the reply it has prepared. -/
def openPart (x : Exchange) (c : Conn Frame) : Outcome Frame :=
  let o := c.processConnection Frame.whole (x.serverInput t .again)
  if o.conn.opening.isSome then o.conn.processConnection Frame.whole (x.serverInput t .again) else o

/-- What follows the pass of the server that decides. -/
def conclude (x : Exchange) (o : Outcome Frame) : Option (MsgConnectReply × Bytes × Exchange) :=
  match o.effect with
  | .replace e =>
    -- the registered connection runs `do_replace` and reads the socket from now on
    let s := e.doReplace Frame.whole { random := t.replaceRandom, junk := t.junk, kernel := some 2 }
    ({ x with server := s.conn, existing := none } : Exchange).replied s.wrote
  | .register =>
    let o' := x.openPart t o.conn
    ({ x with server := o'.conn, serverGseq := o.gseq } : Exchange).replied o'.wrote
  | _ => ({ x with server := o.conn } : Exchange).replied o.wrote

/-- The server reads the connect message and answers. -/
def serve (x : Exchange) (m : MsgConnect) (auth : Bytes) :
    Option (MsgConnectReply × Bytes × Exchange) :=
  let o := x.server.processConnection Frame.whole (x.serverInput t (.done (.connect m)))
  x.conclude t (o.conn.processConnection Frame.whole (x.serverInput t (.done (.bytes auth))))

/-- The client reads the answer. -/
def heed (x : Exchange) (r : MsgConnectReply) (auth : Bytes) : Option Exchange :=
  let o := x.client.processConnection Frame.whole (x.clientInput t (.done (.reply r)))
  let o := o.conn.processConnection Frame.whole (x.clientInput t (.done (.bytes auth)))
  if o.flow = .next then some { x with client := o.conn, gseq := o.gseq } else none

/-- One connect message, with the tag of the answer. -/
def round (x : Exchange) : Option (ℕ × Exchange) :=
  (x.ask t).bind fun (m, auth, x) ↦ (x.serve t m auth).bind fun (r, auth, x) ↦
    (x.heed t r auth).map fun x ↦ (r.tag, x)

/-- The exchange, as long as it takes no more than `n` connect messages; `none` if one side fails or
gives up, or if the last answer is not conclusive. -/
def run : ℕ → Exchange → Option (ℕ × Exchange)
  | 0, _ => none
  | n + 1, x => (x.round t).bind fun (tag, x) ↦
    if tag ∈ Tag.conclusive then some (tag, x) else run n x

/-! ## One round

Every function on the way is evaluated for a kernel that takes whole frames, the one case that
concerns a handshake on which nothing else happens. `serve_eq` and `heed_eq` are what comes out: the
server decides, and the client acts on the answer, by their numbers alone. -/

/-- The features each side requires are offered by the other. -/
structure Compatible (x : Exchange) : Prop where
  ours : featMissing x.client.policy.featuresRequired t.policy.featuresSupported = 0
  theirs : featMissing t.policy.featuresRequired x.client.policy.featuresSupported = 0
  signed : t.requireSignatures = true →
    featMissing (t.policy.featuresRequired ||| featureMsgAuth) x.client.policy.featuresSupported = 0

/-- The client is about to send a connect message and the server waits for it. -/
structure Poised (x : Exchange) : Prop where
  clientState : x.client.state = .connectingSendConnectMsg
  clientOut : x.client.outcomingBl = []
  serverState : x.server.state = .acceptingWaitConnectMsg
  serverOut : x.server.outcomingBl = []
  serverOpening : x.server.opening = none
  compatible : x.Compatible t
  /-- The client has room for the server's part of the authorizer. -/
  authorizerFits : ∀ n, (t.authorizerReply n).length ≤ stateBufferSize

end Exchange

namespace Conn

/-- The kernel takes the only frames there are. -/
theorem trySend_whole {c : Conn Frame} (bl : List Frame) (hout : c.outcomingBl = [])
    (hbl : bl ≠ []) (hlen : bl.length ≤ 2) :
    c.trySend bl (some 2) = ⟨{ c with outcomingBl := [], evWrite := false }, bl, some 0⟩ := by
  rw [trySend, hout, List.nil_append, if_neg hbl, List.drop_of_length_le hlen,
    List.take_of_length_le hlen]
  rfl

theorem replyAccept_whole {c : Conn Frame} (tag : ℕ) (m : MsgConnect) (reply : MsgConnectReply)
    (auth : Bytes) (hout : c.outcomingBl = []) :
    c.replyAccept Frame.whole tag m reply auth (some 2) =
      ⟨{ c with outcomingBl := [], evWrite := false, state := .acceptingWaitConnectMsg },
        [.reply (c.acceptReply tag m reply auth) auth], some 0⟩ := by
  have hsend := trySend_whole [.reply (c.acceptReply tag m reply auth) auth] hout
    (List.cons_ne_nil _ _) (Nat.le_succ 1)
  rw [replyAccept, Frame.whole, hsend]

theorem sendThen_whole {c : Conn Frame} {frames : List Frame} (next : State) {inp : Input Frame}
    (hkernel : inp.kernel = some 2) (hout : c.outcomingBl = []) (hframes : frames ≠ [])
    (hlen : frames.length ≤ 2) :
    c.sendThen Frame.whole frames next inp =
      { conn := { c with outcomingBl := [], evWrite := false, state := next }
        wrote := frames
        gseq := inp.gseq } := by
  have hflat : frames.flatMap Frame.whole = frames := List.flatMap_singleton' frames
  rw [sendThen, hflat, hkernel, trySend_whole frames hout hframes hlen]

/-- A refusal that is sent as a whole. -/
theorem refuse_whole {c : Conn Frame} (tag : ℕ) (m : MsgConnect) (reply : MsgConnectReply)
    (auth : Bytes) {inp : Input Frame} (effect : Effect Frame) (hkernel : inp.kernel = some 2)
    (hout : c.outcomingBl = []) :
    c.refuse Frame.whole tag m reply auth inp effect =
      { conn := { c with outcomingBl := [], evWrite := false, state := .acceptingWaitConnectMsg }
        wrote := [.reply (c.acceptReply tag m { reply with protocolVersion := inp.protoVersion } auth)
          auth]
        gseq := inp.gseq
        effect } := by
  rw [refuse, hkernel, replyAccept_whole tag m _ auth hout]

/-- `do_replace` answers on the socket it has taken over. -/
theorem doReplace_whole (c : Conn Frame) {r : ReplaceInput} (hkernel : r.kernel = some 2) :
    ∃ reply : MsgConnectReply, reply.tag = Tag.retrySession ∧
      reply.connectSeq = inc32 c.replacingConnect.connectSeq ∧
      reply.authorizerLen = c.replacingAuthorizerReply.length ∧
      c.doReplace Frame.whole r =
        ⟨({ c.takeOver r.random with
            outcomingBl := [], evWrite := false
            state := .acceptingWaitConnectMsg } : Conn Frame).clearAuthorizerReply,
          [.reply reply c.replacingAuthorizerReply], some 0⟩ := by
  obtain ⟨hout, hauth, -⟩ := c.takeOver_fields r.random
  refine ⟨(c.takeOver r.random).acceptReply Tag.retrySession c.replacingConnect
    { r.junk with connectSeq := inc32 c.replacingConnect.connectSeq } c.replacingAuthorizerReply,
    rfl, rfl, rfl, ?_⟩
  rw [doReplace, hkernel, hauth]
  dsimp only
  rw [replyAccept_whole _ _ _ _ hout]

/-- What `handle_connect_msg` prepares for an accepted session. -/
theorem openSession_spec (c : Conn Frame) (m : MsgConnect) (auth : Bytes) (protoVersion gseq : ℕ) :
    (c.openSession m auth protoVersion gseq).effect = .register ∧
    (c.openSession m auth protoVersion gseq).conn.state = c.state ∧
    (c.openSession m auth protoVersion gseq).conn.outcomingBl = c.outcomingBl ∧
    ∃ (r : MsgConnectReply) (rest : List Frame) (next : State),
      (c.openSession m auth protoVersion gseq).conn.opening = some (.reply r auth :: rest, next) ∧
      rest.length ≤ 1 ∧ (r.tag = Tag.ready ∨ r.tag = Tag.seq) ∧
      r.features = c.policy.featuresSupported ∧ r.authorizerLen = auth.length := by
  rw [openSession]
  by_cases hresume : c.replacing ≠ 0 ∧ (!c.isResetFromPeer) = true
  · simp only [if_pos hresume]
    exact ⟨trivial, trivial, trivial, _, _, _, rfl, Nat.le_refl 1, Or.inr rfl, rfl, rfl⟩
  · simp only [if_neg hresume]
    exact ⟨trivial, trivial, trivial, _, _, _, rfl, Nat.zero_le 1, Or.inl rfl, rfl, rfl⟩

/-- The prepared answer is sent as a whole. -/
theorem finishOpen_whole {c : Conn Frame} {frames : List Frame} (next : State) {inp : Input Frame}
    (hkernel : inp.kernel = some 2) (hout : c.outcomingBl = []) (hframes : frames ≠ [])
    (hlen : frames.length ≤ 2)
    (hnotified : ¬ ((!c.notified) = true ∧ (c.replacing = 0 ∨ c.replacing = 2) ∧
      (!c.queueReset) = true)) :
    (c.finishOpen Frame.whole frames next inp).wrote = frames ∧
      (c.finishOpen Frame.whole frames next inp).conn.opening = none := by
  have hsend := sendThen_whole (c := { c with opening := none, notified := false }) next hkernel hout
    hframes hlen
  simp only [finishOpen, if_neg hnotified, hsend, and_self]

/-- The connect message carries the client's numbers, whatever the authorizer. -/
theorem sendConnectMsg_whole {c : Conn Frame} {inp : Input Frame} (hkernel : inp.kernel = some 2)
    (hout : c.outcomingBl = []) :
    ∃ m auth a, c.sendConnectMsg Frame.whole inp =
      { conn := { c with
          connectMsg := m, authorizer := a, outcomingBl := [], evWrite := false
          state := .connectingWaitConnectReply }
        wrote := [.connect m auth]
        gseq := inp.gseq } ∧
      m.connectSeq = c.connectSeq ∧ m.globalSeq = c.globalSeq ∧
      m.protocolVersion = inp.protoVersion ∧ m.features = c.policy.featuresSupported := by
  obtain ⟨a, ha⟩ : ∃ a, (if c.gotBadAuth then c else { c with authorizer := inp.newAuthorizer }) =
      { c with authorizer := a } := by
    split_ifs
    · exact ⟨c.authorizer, rfl⟩
    · exact ⟨inp.newAuthorizer, rfl⟩
  let m := ({ c with authorizer := a } : Conn Frame).buildConnectMsg inp.hostType inp.protoVersion
  refine ⟨m, a.getD [], a, ?_, rfl, rfl, rfl, rfl⟩
  rw [sendConnectMsg, ha]
  have hout' : ({ c with authorizer := a, connectMsg := m } : Conn Frame).outcomingBl = [] := hout
  exact sendThen_whole _ hkernel hout' (List.cons_ne_nil _ _) (Nat.le_succ 1)

/-- The answer is acted on once its authorizer has been read and verified. -/
theorem processConnection_replyAuth {β : Type} {enc : Frame → List β} {c : Conn β} {inp : Input β}
    {chunk : Chunk} (hs : c.state = .connectingWaitConnectReplyAuth)
    (hlen : c.connectReply.authorizerLen ≤ stateBufferSize) (hread : inp.read = .done chunk)
    (hverify : inp.verifyReply = true) :
    c.processConnection enc inp = c.handleConnectReply c.connectReply inp := by
  rw [processConnection, hs]
  dsimp only
  by_cases hzero : c.connectReply.authorizerLen = 0
  · rw [if_pos hzero]
  · rw [if_neg hzero, if_neg (Nat.not_lt.mpr hlen), onRead, hread]
    dsimp only
    rw [hverify, if_neg (by simp)]

/-- The decision looks at no more of the accepting side than `resetcheck` and `replacing`, and at no
more of the connect message than its two numbers. -/
theorem judge_congr {β : Type} {c c' : Conn β} {m m' : MsgConnect} (existing : Option (Conn β))
    (peerLess : Bool) (hcheck : c.policy.resetcheck = c'.policy.resetcheck)
    (hreplacing : c.replacing = c'.replacing) (hseq : m.connectSeq = m'.connectSeq)
    (hglobal : m.globalSeq = m'.globalSeq) :
    c.judge existing m peerLess = c'.judge existing m' peerLess := by
  cases existing with
  | none => simp only [judge, hreplacing, hseq]
  | some e => simp only [judge, judgeExisting, hcheck, hseq, hglobal]

/-- The connect message is acted on once its authorizer has been read. -/
theorem processConnection_connectAuth {β : Type} {enc : Frame → List β} {c : Conn β} {inp : Input β}
    {chunk : Chunk} (hs : c.state = .acceptingWaitConnectMsgAuth) (hopening : c.opening = none)
    (hread : inp.read = .done chunk) :
    c.processConnection enc inp = c.gotConnectMsg enc inp := by
  rw [processConnection, hs]
  dsimp only
  rw [hopening]
  dsimp only
  split_ifs
  · rfl
  · rw [onRead, hread]

end Conn

namespace Exchange

variable {t : Terms} {x : Exchange}

/-- The client has sent its connect message and waits for the answer. -/
theorem ask_spec (h : x.Poised t) :
    ∃ m auth a, x.ask t = some (m, auth, { x with
        client := { x.client with
          connectMsg := m, authorizer := a, outcomingBl := [], evWrite := false
          state := .connectingWaitConnectReply }
        sent := x.sent + 1 }) ∧
      m.connectSeq = x.client.connectSeq ∧ m.globalSeq = x.client.globalSeq ∧
      m.protocolVersion = t.protoVersion ∧ m.features = x.client.policy.featuresSupported := by
  have hpass : x.client.processConnection Frame.whole (x.clientInput t .again) =
      x.client.sendConnectMsg Frame.whole (x.clientInput t .again) := by
    rw [Conn.processConnection, h.clientState]
  have hkernel : (x.clientInput t .again).kernel = some 2 := rfl
  obtain ⟨m, auth, a, hsend, hnumbers⟩ := Conn.sendConnectMsg_whole hkernel h.clientOut
  refine ⟨m, auth, a, ?_, hnumbers⟩
  rw [ask, hpass, hsend]

/-- The client reads the answer in two passes and acts on it in the second. -/
theorem heed_eq {r : MsgConnectReply} {auth : Bytes}
    (hs : x.client.state = .connectingWaitConnectReply) (hlen : r.authorizerLen ≤ stateBufferSize) :
    x.heed t r auth =
      let o := ({ x.client with
          connectReply := r
          state := .connectingWaitConnectReplyAuth } : Conn Frame).handleConnectReply r
        (x.clientInput t (.done (.bytes auth)))
      if o.flow = .next then some { x with client := o.conn, gseq := o.gseq } else none := by
  have hfirst : x.client.processConnection Frame.whole (x.clientInput t (.done (.reply r))) =
      { conn := { x.client with connectReply := r, state := .connectingWaitConnectReplyAuth }
        gseq := x.gseq } := by
    rw [Conn.processConnection, hs]
    rfl
  rw [heed, hfirst]
  dsimp only
  rw [Conn.processConnection_replyAuth rfl hlen rfl rfl]

/-- The connection that has read the connect message, with the policy for its peer. -/
def asked (x : Exchange) (m : MsgConnect) (p : Policy) : Conn Frame :=
  { x.server with connectMsg := m, state := .acceptingWaitConnectMsgAuth, policy := p }

/-- A server that waits for the connect message `m` of a compatible client. -/
structure Listens (t : Terms) (x : Exchange) (m : MsgConnect) : Prop where
  state : x.server.state = .acceptingWaitConnectMsg
  out : x.server.outcomingBl = []
  opening : x.server.opening = none
  protocol : m.protocolVersion = t.protoVersion
  features : featMissing t.policy.featuresRequired m.features = 0
  signed : t.requireSignatures = true →
    featMissing (t.policy.featuresRequired ||| featureMsgAuth) m.features = 0

/-- The server decides by the registered connection alone. -/
theorem serve_eq {m : MsgConnect} (auth : Bytes) (h : x.Listens t m) :
    ∃ p, Conn.SamePolicy p t.policy ∧ x.serve t m auth =
      x.conclude t ((x.asked m p).carryOut Frame.whole m (x.serverInput t (.done (.bytes auth)))
        ((x.asked m p).judge x.existing m t.peerLess)) := by
  have hfirst : x.server.processConnection Frame.whole (x.serverInput t (.done (.connect m))) =
      { conn := { x.server with connectMsg := m, state := .acceptingWaitConnectMsgAuth }
        gseq := x.serverGseq } := by
    rw [Conn.processConnection, h.state]
    rfl
  let inp := x.serverInput t (.done (.bytes auth))
  obtain ⟨p, hp, hsign⟩ := (x.asked m t.policy).requireSignatures_eq inp
  have hfeat : ¬ featMissing ((x.asked m t.policy).requireSignatures inp).policy.featuresRequired
      (x.asked m t.policy).connectMsg.features ≠ 0 := by
    rw [Conn.requireSignatures, not_not]
    split_ifs with hif
    · exact h.signed hif.2
    · exact h.features
  have hsecond : ({ x.server with
        connectMsg := m, state := .acceptingWaitConnectMsgAuth } : Conn Frame).processConnection
          Frame.whole (x.serverInput t (.done (.bytes auth))) =
      (x.asked m p).carryOut Frame.whole m (x.serverInput t (.done (.bytes auth)))
        ((x.asked m p).judge x.existing m t.peerLess) := by
    have hgot : (x.asked m t.policy).handleConnectMsg Frame.whole inp =
        (x.asked m p).carryOut Frame.whole m inp ((x.asked m p).judge x.existing m t.peerLess) := by
      have hproto : ¬ (x.asked m t.policy).connectMsg.protocolVersion ≠ inp.protoVersion :=
        not_not.mpr h.protocol
      rw [Conn.handleConnectMsg, if_neg hproto]
      dsimp only
      rw [if_neg hfeat, if_neg (by simp [inp, serverInput]), hsign]
      rfl
    rw [← hgot]
    exact Conn.processConnection_connectAuth rfl h.opening rfl
  refine ⟨p, hp, ?_⟩
  rw [serve, hfirst]
  dsimp only
  rw [hsecond]

/-! ### The answers

What the server is left with: as it was, with its socket handed over, or in an accepted session. -/

/-- A refusal leaves the server as it was, up to its policy. -/
theorem conclude_reply (x : Exchange) {m : MsgConnect} {p : Policy} (tag : ℕ) (reply : MsgConnectReply)
    (auth : Bytes) (hout : x.server.outcomingBl = []) :
    ∃ r : MsgConnectReply, r.tag = tag ∧ r.connectSeq = reply.connectSeq ∧
      r.globalSeq = reply.globalSeq ∧ r.authorizerLen = (t.authorizerReply x.sent).length ∧
      x.conclude t ((x.asked m p).carryOut Frame.whole m (x.serverInput t (.done (.bytes auth)))
        (.reply tag reply)) = some (r, t.authorizerReply x.sent, { x with
          server := { x.asked m p with
            outcomingBl := [], evWrite := false, state := .acceptingWaitConnectMsg } }) := by
  refine ⟨(x.asked m p).acceptReply tag m { reply with protocolVersion := t.protoVersion }
    (t.authorizerReply x.sent), rfl, rfl, rfl, rfl, ?_⟩
  rw [Conn.carryOut, Conn.refuse_whole (c := x.asked m p) tag m reply _ _ rfl hout]
  rfl

theorem conclude_wait (x : Exchange) {m : MsgConnect} {p : Policy} (auth : Bytes)
    (hout : x.server.outcomingBl = []) :
    ∃ (r : MsgConnectReply) (x' : Exchange), r.tag = Tag.wait ∧
      r.authorizerLen = (t.authorizerReply x.sent).length ∧ x'.client = x.client ∧
      x'.sent = x.sent ∧
      x.conclude t ((x.asked m p).carryOut Frame.whole m (x.serverInput t (.done (.bytes auth)))
        .wait) = some (r, t.authorizerReply x.sent, x') := by
  refine ⟨(x.asked m p).acceptReply Tag.wait m { protocolVersion := t.protoVersion }
    (t.authorizerReply x.sent), { x with
      server := { x.asked m p with
        outcomingBl := [], evWrite := false, state := .acceptingWaitConnectMsg } }, rfl, rfl, rfl, rfl,
    ?_⟩
  rw [Conn.carryOut, Conn.refuse_whole (c := x.asked m p) Tag.wait m {} _ _ rfl hout]
  rfl

/-- The registered connection takes the socket over and asks for one more attempt. -/
theorem conclude_replace (x : Exchange) {m : MsgConnect} {p : Policy} {e : Conn Frame} (auth : Bytes)
    (reset fromPeer : Bool) (hex : x.existing = some e) (hopening : e.opening = none) :
    ∃ (r : MsgConnectReply) (x' : Exchange), r.tag = Tag.retrySession ∧
      r.connectSeq = inc32 m.connectSeq ∧ r.authorizerLen = (t.authorizerReply x.sent).length ∧
      x'.client = x.client ∧ x'.gseq = x.gseq ∧ x'.sent = x.sent ∧ x'.existing = none ∧
      x'.server.state = .acceptingWaitConnectMsg ∧ x'.server.outcomingBl = [] ∧
      x'.server.opening = none ∧ x'.server.replacing = 2 ∧
      x.conclude t ((x.asked m p).carryOut Frame.whole m (x.serverInput t (.done (.bytes auth)))
        (.replace reset fromPeer)) = some (r, t.authorizerReply x.sent, x') := by
  let c := e.markReplacing (x.asked m p).sd m (t.authorizerReply x.sent) reset fromPeer
  let input : ReplaceInput := { random := t.replaceRandom, junk := t.junk, kernel := some 2 }
  obtain ⟨r, htag, hseq, hlen, hreplace⟩ := c.doReplace_whole (r := input) rfl
  obtain ⟨-, -, htake⟩ := c.takeOver_fields t.replaceRandom
  have hopen : (c.takeOver t.replaceRandom).opening = none := htake.trans hopening
  refine ⟨r, { x with server := (c.doReplace Frame.whole input).conn, existing := none }, htag, hseq,
    hlen, rfl, rfl, rfl, rfl, ?_⟩
  have heffect : ((x.asked m p).carryOut Frame.whole m (x.serverInput t (.done (.bytes auth)))
      (.replace reset fromPeer)).effect = .replace c := by
    have hfill : (x.serverInput t (.done (.bytes auth))).existing = some e := hex
    rw [Conn.carryOut]
    dsimp only
    rw [hfill]
    rfl
  rw [conclude, heffect]
  dsimp only
  rw [hreplace]
  exact ⟨rfl, rfl, hopen, rfl, rfl⟩

/-- The answer goes out as a whole, before or after the dispatchers have been notified. -/
theorem wrote_openPart (x : Exchange) {c : Conn Frame} {frames : List Frame} {next : State}
    (hs : c.state = .acceptingWaitConnectMsgAuth) (hopening : c.opening = some (frames, next))
    (hout : c.outcomingBl = []) (hframes : frames ≠ []) (hlen : frames.length ≤ 2) :
    (x.openPart t c).wrote = frames := by
  have hpass {d : Conn Frame} (hs : d.state = .acceptingWaitConnectMsgAuth)
      (hopening : d.opening = some (frames, next)) :
      d.processConnection Frame.whole (x.serverInput t .again) =
        d.finishOpen Frame.whole frames next (x.serverInput t .again) := by
    rw [Conn.processConnection, hs]
    dsimp only
    rw [hopening]
  rw [openPart, hpass hs hopening]
  by_cases hnotify : (!c.notified) = true ∧ (c.replacing = 0 ∨ c.replacing = 2) ∧
      (!c.queueReset) = true
  · have hfirst : c.finishOpen Frame.whole frames next (x.serverInput t .again) =
        { conn := { c with queueReset := true, notified := true }
          gseq := (x.serverInput t .again).gseq } := if_pos hnotify
    have hrest : c.opening.isSome = true := by rw [hopening, Option.isSome_some]
    rw [hfirst, if_pos hrest, hpass (d := { c with queueReset := true, notified := true }) hs hopening]
    exact (Conn.finishOpen_whole (c := { c with queueReset := true, notified := true }) next rfl hout
      hframes hlen (by simp)).1
  · have hsent : (c.finishOpen Frame.whole frames next (x.serverInput t .again)).wrote = frames ∧
        (c.finishOpen Frame.whole frames next (x.serverInput t .again)).conn.opening = none :=
      Conn.finishOpen_whole next rfl hout hframes hlen hnotify
    rw [hsent.2, if_neg (by simp), hsent.1]

/-- An accepted session is answered READY or SEQ. -/
theorem conclude_open (x : Exchange) {m : MsgConnect} {p : Policy} (auth : Bytes)
    (hout : x.server.outcomingBl = []) :
    ∃ (r : MsgConnectReply) (x' : Exchange), (r.tag = Tag.ready ∨ r.tag = Tag.seq) ∧
      r.features = p.featuresSupported ∧
      r.authorizerLen = (t.authorizerReply x.sent).length ∧ x'.client = x.client ∧
      x'.sent = x.sent ∧
      x.conclude t ((x.asked m p).carryOut Frame.whole m (x.serverInput t (.done (.bytes auth)))
        .open) = some (r, t.authorizerReply x.sent, x') := by
  rw [Conn.carryOut]
  obtain ⟨heffect, hs, hpend, r, rest, next, hopening, hrest, htag, hfeat, hlen⟩ :=
    (x.asked m p).openSession_spec m (t.authorizerReply x.sent) t.protoVersion x.serverGseq
  generalize ho : (x.asked m p).openSession m (t.authorizerReply x.sent) t.protoVersion
    x.serverGseq = o at heffect hs hpend hopening
  have hfinish : (x.openPart t o.conn).wrote = .reply r (t.authorizerReply x.sent) :: rest :=
    x.wrote_openPart hs hopening (hpend.trans hout) (List.cons_ne_nil _ _) (Nat.succ_le_succ hrest)
  refine ⟨r, { x with server := (x.openPart t o.conn).conn, serverGseq := o.gseq }, htag, hfeat, hlen,
    rfl, rfl, ?_⟩
  have hsession : (x.asked m p).openSession m (x.serverInput t (.done (.bytes auth))).authorizerReply
      (x.serverInput t (.done (.bytes auth))).protoVersion
      (x.serverInput t (.done (.bytes auth))).gseq = o := ho
  rw [hsession, conclude, heffect]
  dsimp only
  rw [hfinish]
  rfl

/-! ### What the client makes of them -/

section Heed

variable {r : MsgConnectReply} {auth : Bytes}
  (hs : x.client.state = .connectingWaitConnectReply) (hlen : r.authorizerLen ≤ stateBufferSize)

include hs hlen

theorem heed_retryGlobal (htag : r.tag = Tag.retryGlobal) :
    x.heed t r auth = some { x with
      client := { x.client with
        connectReply := r
        globalSeq := getGlobalSeq x.gseq r.globalSeq
        state := .connectingSendConnectMsg }
      gseq := getGlobalSeq x.gseq r.globalSeq } := by
  rw [heed_eq hs hlen, Conn.handleConnectReply, htag]
  rfl

theorem heed_retrySession (htag : r.tag = Tag.retrySession)
    (hlt : x.client.connectSeq < r.connectSeq) :
    x.heed t r auth = some { x with
      client := { x.client with
        connectReply := r
        connectSeq := r.connectSeq
        state := .connectingSendConnectMsg } } := by
  have hnot : ¬ r.connectSeq ≤ x.client.connectSeq := Nat.not_le.mpr hlt
  rw [heed_eq hs hlen, Conn.handleConnectReply, htag]
  simp only [Tag.retrySession, Tag.features, Tag.badProtoVer, Tag.badAuthorizer, Tag.resetSession,
    Tag.retryGlobal, if_neg hnot]
  rfl

theorem heed_resetSession (htag : r.tag = Tag.resetSession) :
    x.heed t r auth = some { x with
      client := { ({ x.client with connectReply := r } : Conn Frame).wasSessionReset
          (t.random x.sent) with
        state := .connectingSendConnectMsg } } := by
  rw [heed_eq hs hlen, Conn.handleConnectReply, htag]
  rfl

/-- READY, SEQ and WAIT are accepted from a server that offers what is required. -/
theorem heed_conclusive (htag : r.tag ∈ Tag.conclusive)
    (hfeat : r.tag ≠ Tag.wait → featMissing x.client.policy.featuresRequired r.features = 0) :
    ∃ x', x.heed t r auth = some x' ∧ x'.sent = x.sent := by
  rw [heed_eq hs hlen, Conn.handleConnectReply]
  simp only [Tag.conclusive, List.mem_cons, List.not_mem_nil, or_false] at htag
  rcases htag with htag | htag | htag
  · rw [htag] at hfeat ⊢
    have hzero := hfeat (by decide)
    simp only [Tag.ready, Tag.features, Tag.badProtoVer, Tag.badAuthorizer, Tag.resetSession,
      Tag.retryGlobal, Tag.retrySession, Tag.wait, Tag.seq, if_pos hzero]
    exact ⟨_, rfl, rfl⟩
  · rw [htag] at hfeat ⊢
    have hzero := hfeat (by decide)
    simp only [Tag.features, Tag.badProtoVer, Tag.badAuthorizer, Tag.resetSession,
      Tag.retryGlobal, Tag.retrySession, Tag.wait, Tag.seq, if_pos hzero]
    exact ⟨_, rfl, rfl⟩
  · rw [htag]
    exact ⟨_, rfl, rfl⟩

end Heed

/-! ### The round as a whole -/

/-- The decision on the client's next connect message. -/
def verdict (t : Terms) (x : Exchange) : Verdict :=
  ({ x.server with policy := t.policy } : Conn Frame).judge x.existing
    { connectSeq := x.client.connectSeq, globalSeq := x.client.globalSeq } t.peerLess

theorem resetcheck_of_samePolicy {p p' : Policy} (h : Conn.SamePolicy p p') :
    p.resetcheck = p'.resetcheck := by
  have heq : ({ p with featuresRequired := 0 } : Policy).resetcheck =
      ({ p' with featuresRequired := 0 } : Policy).resetcheck := congrArg Policy.resetcheck h
  exact heq

theorem featuresSupported_of_samePolicy {p p' : Policy} (h : Conn.SamePolicy p p') :
    p.featuresSupported = p'.featuresSupported := by
  have heq : ({ p with featuresRequired := 0 } : Policy).featuresSupported =
      ({ p' with featuresRequired := 0 } : Policy).featuresSupported :=
    congrArg Policy.featuresSupported h
  exact heq

/-- The client while it waits for an answer. -/
structure Awaits (x y : Exchange) : Prop where
  state : y.client.state = .connectingWaitConnectReply
  out : y.client.outcomingBl = []
  policy : y.client.policy = x.client.policy
  connectSeq : y.client.connectSeq = x.client.connectSeq
  globalSeq : y.client.globalSeq = x.client.globalSeq
  gseq : y.gseq = x.gseq
  sent : y.sent = x.sent + 1

/-- The server after an answer that does not end the exchange. -/
structure Serves (y : Exchange) (existing : Option (Conn Frame)) (replacing : ℕ) : Prop where
  state : y.server.state = .acceptingWaitConnectMsg
  out : y.server.outcomingBl = []
  opening : y.server.opening = none
  existing : y.existing = existing
  replacing : y.server.replacing = replacing

/-- A round is the connect message, the decision, and what the client makes of the answer. -/
theorem round_eq (h : x.Poised t) :
    ∃ y m auth p, Awaits x y ∧ y.server = x.server ∧ y.existing = x.existing ∧
      Conn.SamePolicy p t.policy ∧ m.connectSeq = x.client.connectSeq ∧ x.round t =
      (y.conclude t ((y.asked m p).carryOut Frame.whole m
          (y.serverInput t (.done (.bytes auth))) (x.verdict t))).bind
        fun (r, auth, z) ↦ (z.heed t r auth).map fun z ↦ (r.tag, z) := by
  obtain ⟨m, auth, a, hask, hseq, hglobal, hproto, hfeat⟩ := ask_spec h
  let y : Exchange := { x with
    client := { x.client with
      connectMsg := m, authorizer := a, outcomingBl := [], evWrite := false
      state := .connectingWaitConnectReply }
    sent := x.sent + 1 }
  have hlistens : y.Listens t m := by
    refine ⟨h.serverState, h.serverOut, h.serverOpening, hproto, ?_, ?_⟩
    · rw [hfeat]
      exact h.compatible.theirs
    · rw [hfeat]
      exact h.compatible.signed
  obtain ⟨p, hp, hserve⟩ := serve_eq auth hlistens
  refine ⟨y, m, auth, p, ⟨rfl, rfl, rfl, rfl, rfl, rfl, rfl⟩, rfl, rfl, hp, hseq, ?_⟩
  have hverdict : (y.asked m p).judge y.existing m t.peerLess = x.verdict t :=
    Conn.judge_congr _ _ (resetcheck_of_samePolicy hp) rfl hseq hglobal
  rw [hverdict] at hserve
  rw [round, hask, Option.bind_some]
  dsimp only
  rw [hserve]

/-- The exchange goes on with the next connect message, which carries these numbers, to a server whose
registered connection is `existing`. -/
structure Goes (t : Terms) (x x' : Exchange) (connectSeq globalSeq : ℕ)
    (existing : Option (Conn Frame)) (replacing : ℕ) : Prop where
  poised : x'.Poised t
  connectSeq : x'.client.connectSeq = connectSeq
  globalSeq : x'.client.globalSeq = globalSeq
  existing : x'.existing = existing
  replacing : x'.server.replacing = replacing
  sent : x'.sent = x.sent + 1

theorem Goes.of_awaits {y : Exchange} {existing : Option (Conn Frame)} {replacing cs g : ℕ}
    {c : Conn Frame} {gseq : ℕ} (h : x.Poised t) (hy : Awaits x y) (hserves : y.Serves existing replacing)
    (hs : c.state = .connectingSendConnectMsg) (hout : c.outcomingBl = [])
    (hpolicy : c.policy = y.client.policy) (hseq : c.connectSeq = cs) (hglobal : c.globalSeq = g) :
    Goes t x { y with client := c, gseq } cs g existing replacing := by
  have hsame : c.policy = x.client.policy := hpolicy.trans hy.policy
  refine ⟨⟨hs, hout, hserves.state, hserves.out, hserves.opening, ⟨?_, ?_, ?_⟩, h.authorizerFits⟩, hseq,
    hglobal, hserves.existing, hserves.replacing, hy.sent⟩
  · exact hsame ▸ h.compatible.ours
  · exact hsame ▸ h.compatible.theirs
  · exact hsame ▸ h.compatible.signed

/-- What is left of a refusal for the client to decide. -/
theorem round_of_reply {tag : ℕ} {reply : MsgConnectReply} (h : x.Poised t)
    (hv : x.verdict t = .reply tag reply) :
    ∃ (y : Exchange) (r : MsgConnectReply) (auth : Bytes), r.tag = tag ∧
      r.connectSeq = reply.connectSeq ∧ r.globalSeq = reply.globalSeq ∧
      r.authorizerLen ≤ stateBufferSize ∧ Awaits x y ∧ y.Serves x.existing x.server.replacing ∧
      x.round t = (y.heed t r auth).map fun z ↦ (tag, z) := by
  obtain ⟨y, m, auth, p, hy, hserver, hex, -, -, hround⟩ := round_eq h
  have hout : y.server.outcomingBl = [] := by rw [hserver, h.serverOut]
  obtain ⟨r, htag, hseq, hglobal, hlen, hconclude⟩ :=
    conclude_reply (t := t) y (m := m) (p := p) tag reply auth hout
  rw [hv, hconclude, Option.bind_some] at hround
  dsimp only at hround
  rw [htag] at hround
  have hopening : y.server.opening = none := (congrArg Conn.opening hserver).trans h.serverOpening
  have hreplacing : y.server.replacing = x.server.replacing := congrArg Conn.replacing hserver
  refine ⟨_, r, _, htag, hseq, hglobal, hlen ▸ h.authorizerFits _, ?_, ?_, hround⟩
  · exact ⟨hy.state, hy.out, hy.policy, hy.connectSeq, hy.globalSeq, hy.gseq, hy.sent⟩
  · exact ⟨rfl, rfl, hopening, hex, hreplacing⟩

theorem round_retryGlobal {reply : MsgConnectReply} (h : x.Poised t)
    (hv : x.verdict t = .reply Tag.retryGlobal reply) :
    ∃ x', x.round t = some (Tag.retryGlobal, x') ∧ Goes t x x' x.client.connectSeq
      (getGlobalSeq x.gseq reply.globalSeq) x.existing x.server.replacing := by
  obtain ⟨y, r, auth, htag, -, hglobal, hlen, hy, hserves, hround⟩ := round_of_reply h hv
  rw [heed_retryGlobal hy.state hlen htag] at hround
  refine ⟨_, hround, .of_awaits h hy hserves rfl hy.out rfl hy.connectSeq ?_⟩
  rw [← hglobal, ← hy.gseq]

theorem round_retrySession {reply : MsgConnectReply} (h : x.Poised t)
    (hv : x.verdict t = .reply Tag.retrySession reply)
    (hlt : x.client.connectSeq < reply.connectSeq) :
    ∃ x', x.round t = some (Tag.retrySession, x') ∧ Goes t x x' reply.connectSeq
      x.client.globalSeq x.existing x.server.replacing := by
  obtain ⟨y, r, auth, htag, hseq, -, hlen, hy, hserves, hround⟩ := round_of_reply h hv
  rw [← hseq, ← hy.connectSeq] at hlt
  rw [heed_retrySession hy.state hlen htag hlt] at hround
  exact ⟨_, hround, .of_awaits h hy hserves rfl hy.out rfl hseq hy.globalSeq⟩

theorem round_resetSession {reply : MsgConnectReply} (h : x.Poised t)
    (hv : x.verdict t = .reply Tag.resetSession reply) :
    ∃ x', x.round t = some (Tag.resetSession, x') ∧ Goes t x x' 0 x.client.globalSeq x.existing
      x.server.replacing := by
  obtain ⟨y, r, auth, htag, -, -, hlen, hy, hserves, hround⟩ := round_of_reply h hv
  rw [heed_resetSession hy.state hlen htag] at hround
  exact ⟨_, hround, .of_awaits h hy hserves rfl rfl rfl rfl hy.globalSeq⟩

/-- The registered connection has the socket, and the next connect message decides. -/
theorem round_replace {e : Conn Frame} {reset fromPeer : Bool} (h : x.Poised t)
    (hv : x.verdict t = .replace reset fromPeer) (hex : x.existing = some e)
    (hopening : e.opening = none) (hlt : x.client.connectSeq < inc32 x.client.connectSeq) :
    ∃ x', x.round t = some (Tag.retrySession, x') ∧ Goes t x x' (inc32 x.client.connectSeq)
      x.client.globalSeq none 2 := by
  obtain ⟨y, m, auth, p, hy, hserver, hex', -, hseq, hround⟩ := round_eq h
  obtain ⟨r, z, htag, hrseq, hlen, hclient, hgseq, hsent, hnone, hs, hout, hopen, hrepl, hconclude⟩ :=
    conclude_replace (t := t) y (m := m) (p := p) auth reset fromPeer (hex'.trans hex) hopening
  rw [hv, hconclude] at hround
  have hz : Awaits x z := by
    refine ⟨?_, ?_, ?_, ?_, ?_, hgseq.trans hy.gseq, hsent.trans hy.sent⟩
    all_goals rw [hclient]
    · exact hy.state
    · exact hy.out
    · exact hy.policy
    · exact hy.connectSeq
    · exact hy.globalSeq
  rw [hseq] at hrseq
  rw [Option.bind_some] at hround
  dsimp only at hround
  rw [heed_retrySession hz.state (hlen ▸ h.authorizerFits _) htag (by rw [hz.connectSeq, hrseq]; exact hlt),
    htag] at hround
  exact ⟨_, hround, .of_awaits h hz ⟨hs, hout, hopen, hnone, hrepl⟩ rfl hz.out rfl hrseq hz.globalSeq⟩

theorem round_wait (h : x.Poised t) (hv : x.verdict t = .wait) :
    ∃ tag x', x.round t = some (tag, x') ∧ tag ∈ Tag.conclusive ∧ x'.sent = x.sent + 1 := by
  obtain ⟨y, m, auth, p, hy, hserver, -, -, -, hround⟩ := round_eq h
  have hout : y.server.outcomingBl = [] := by rw [hserver, h.serverOut]
  obtain ⟨r, z, htag, hlen, hclient, hsent, hconclude⟩ :=
    conclude_wait (t := t) y (m := m) (p := p) auth hout
  have hs : z.client.state = .connectingWaitConnectReply := by rw [hclient, hy.state]
  obtain ⟨x', hheed, hsent'⟩ : ∃ x', z.heed t r (t.authorizerReply y.sent) = some x' ∧
      x'.sent = z.sent :=
    heed_conclusive hs (hlen ▸ h.authorizerFits _) (by rw [htag]; decide) fun hne ↦ absurd htag hne
  rw [hv, hconclude, Option.bind_some] at hround
  dsimp only at hround
  rw [hheed, htag] at hround
  exact ⟨_, x', hround, by decide, hsent'.trans (hsent.trans hy.sent)⟩

theorem round_open (h : x.Poised t) (hv : x.verdict t = .open) :
    ∃ tag x', x.round t = some (tag, x') ∧ tag ∈ Tag.conclusive ∧ x'.sent = x.sent + 1 := by
  obtain ⟨y, m, auth, p, hy, hserver, -, hp, -, hround⟩ := round_eq h
  have hout : y.server.outcomingBl = [] := by rw [hserver, h.serverOut]
  obtain ⟨r, z, htag, hfeat, hlen, hclient, hsent, hconclude⟩ :=
    conclude_open (t := t) y (m := m) (p := p) auth hout
  have hs : z.client.state = .connectingWaitConnectReply := by rw [hclient, hy.state]
  have hmem : r.tag ∈ Tag.conclusive := by
    rcases htag with htag | htag
    · rw [htag]
      decide
    · rw [htag]
      decide
  have hours : featMissing z.client.policy.featuresRequired r.features = 0 := by
    rw [hclient, hy.policy, hfeat, featuresSupported_of_samePolicy hp]
    exact h.compatible.ours
  obtain ⟨x', hheed, hsent'⟩ : ∃ x', z.heed t r (t.authorizerReply y.sent) = some x' ∧
      x'.sent = z.sent :=
    heed_conclusive hs (hlen ▸ h.authorizerFits _) hmem fun _ ↦ hours
  rw [hv, hconclude, Option.bind_some] at hround
  dsimp only at hround
  rw [hheed] at hround
  exact ⟨_, x', hround, hmem, hsent'.trans (hsent.trans hy.sent)⟩

/-! ## The whole exchange

The cases are those of `handle_connect_msg`, from the last message of an exchange to the first:
`Ends n` is proved for one, two, three and four messages. -/

/-- The exchange ends with READY, SEQ or WAIT after at most `n` connect messages. -/
def Ends (t : Terms) (n : ℕ) (x : Exchange) : Prop :=
  ∃ tag x', x.run t n = some (tag, x') ∧ tag ∈ Tag.conclusive ∧ x'.sent ≤ x.sent + n

theorem ends_of_conclusive {n tag : ℕ} {x' : Exchange} (hround : x.round t = some (tag, x'))
    (htag : tag ∈ Tag.conclusive) (hsent : x'.sent = x.sent + 1) : Ends t (n + 1) x := by
  refine ⟨tag, x', ?_, htag, by omega⟩
  rw [run, hround, Option.bind_some]
  exact if_pos htag

theorem ends_of_goes {n tag cs g replacing : ℕ} {x' : Exchange} {existing : Option (Conn Frame)}
    (hround : x.round t = some (tag, x')) (htag : tag ∉ Tag.conclusive)
    (hgoes : Goes t x x' cs g existing replacing) (hends : Ends t n x') : Ends t (n + 1) x := by
  obtain ⟨last, z, hrun, hlast, hsent⟩ := hends
  refine ⟨last, z, ?_, hlast, by have := hgoes.sent; omega⟩
  rw [run, hround, Option.bind_some]
  exact (if_neg htag).trans hrun

/-- A connection in the second stage of a replacement accepts every connect message. -/
theorem ends_of_replaced {n : ℕ} (h : x.Poised t) (hex : x.existing = none)
    (hrepl : x.server.replacing = 2) : Ends t (n + 1) x := by
  have hv : x.verdict t = .open := by
    rw [verdict, hex, Conn.judge, if_neg]
    rintro ⟨hzero, -⟩
    exact absurd (hrepl.symm.trans hzero) (by decide)
  obtain ⟨tag, x', hround, htag, hsent⟩ := round_open h hv
  exact ends_of_conclusive hround htag hsent

theorem ends_of_stranger {n : ℕ} (h : x.Poised t) (hex : x.existing = none)
    (hrepl : x.server.replacing = 0) : Ends t (n + 2) x := by
  have hfresh {y : Exchange} {k : ℕ} (hy : y.Poised t) (hex : y.existing = none)
      (hzero : y.client.connectSeq = 0) : Ends t (k + 1) y := by
    have hv : y.verdict t = .open := by
      rw [verdict, hex, Conn.judge, if_neg]
      exact fun hpos ↦ absurd hpos.2 (Nat.not_lt.mpr (Nat.le_of_eq hzero))
    obtain ⟨tag, x', hround, htag, hsent⟩ := round_open hy hv
    exact ends_of_conclusive hround htag hsent
  by_cases hzero : x.client.connectSeq = 0
  · exact hfresh h hex hzero
  · have hv : x.verdict t = .reply Tag.resetSession {} := by
      rw [verdict, hex, Conn.judge, if_pos]
      exact ⟨hrepl, Nat.pos_of_ne_zero hzero⟩
    obtain ⟨x', hround, hgoes⟩ := round_resetSession h hv
    exact ends_of_goes hround (by decide) hgoes
      (hfresh hgoes.poised (hgoes.existing.trans hex) hgoes.connectSeq)

/-- The connection registered for the client can be replaced. -/
structure Replaceable (e : Conn Frame) : Prop where
  replacing : e.replacing = 0
  stopping : e.stopping = false
  closed : e.state ≠ .closed
  closing : e.state ≠ .openTagClose
  /-- No thread is inside its `handle_connect_msg`. -/
  opening : e.opening = none

theorem Replaceable.busy_eq {e : Conn Frame} (h : Replaceable e) : e.busy = false := by
  simp [Conn.busy, h.replacing, h.stopping, h.closed, h.closing]

/-- The tests behind the decision. -/
theorem judges_verdict (t : Terms) (x : Exchange) :
    Conn.Judges ({ x.server with policy := t.policy } : Conn Frame)
      { connectSeq := x.client.connectSeq, globalSeq := x.client.globalSeq } t.peerLess x.existing
      (x.verdict t) :=
  Conn.judges_judge _ _ _ _

section Existing

variable {e : Conn Frame} (he : Replaceable e)

include he

/-- A client whose attempt wins over the registered connection needs two messages. -/
theorem ends_of_claims {n : ℕ} {reset fromPeer : Bool} (h : x.Poised t) (hex : x.existing = some e)
    (hv : x.verdict t = .replace reset fromPeer) (hwrap : x.client.connectSeq + 1 < 2 ^ 32) :
    Ends t (n + 2) x := by
  have hinc : inc32 x.client.connectSeq = x.client.connectSeq + 1 := Nat.mod_eq_of_lt hwrap
  obtain ⟨x', hround, hgoes⟩ := round_replace h hv hex he.opening (by omega)
  exact ends_of_goes hround (by decide) hgoes
    (ends_of_replaced hgoes.poised hgoes.existing hgoes.replacing)

/-- Two messages are enough unless the client is told to change one of its numbers. -/
theorem ends_of_not_reply {n : ℕ} (h : x.Poised t) (hex : x.existing = some e)
    (hwrap : x.client.connectSeq + 1 < 2 ^ 32)
    (hnot : ∀ tag reply, x.verdict t ≠ .reply tag reply) : Ends t (n + 2) x := by
  have hj := judges_verdict t x
  rw [hex] at hj
  generalize hv : x.verdict t = v at hj hnot
  cases hj with
  | old | behind | level | unknown => exact absurd rfl (hnot _ _)
  | race =>
    obtain ⟨tag, x', hround, htag, hsent⟩ := round_wait h hv
    exact ends_of_conclusive hround htag hsent
  | busy _ _ _ _ _ hbusy => exact absurd (he.busy_eq.symm.trans hbusy) (by decide)
  | replace => exact ends_of_claims he h hex hv hwrap

/-- A client that is ahead of the registered connection replaces it. -/
theorem ends_of_ahead {n : ℕ} (h : x.Poised t) (hex : x.existing = some e)
    (hglobal : e.peerGlobalSeq ≤ x.client.globalSeq) (hlt : e.connectSeq < x.client.connectSeq)
    (hcheck : ¬ (t.policy.resetcheck = true ∧ e.connectSeq = 0))
    (hwrap : x.client.connectSeq + 1 < 2 ^ 32) : Ends t (n + 2) x := by
  refine ends_of_not_reply he h hex hwrap fun tag reply hv ↦ ?_
  have hj := judges_verdict t x
  rw [hex, hv] at hj
  cases hj with
  | old _ hold => exact absurd hold (Nat.not_lt.mpr hglobal)
  | behind _ _ _ _ hlt' => exact absurd hlt' (Nat.not_lt.mpr (Nat.le_of_lt hlt))
  | level _ _ _ heq => exact absurd heq (Nat.ne_of_gt hlt)
  | unknown _ _ _ _ hcheck' hzero => exact hcheck ⟨hcheck', hzero⟩

/-- A client with a new session meets a registered connection that has none either. -/
theorem ends_of_level_zero {n : ℕ} (h : x.Poised t) (hex : x.existing = some e)
    (hglobal : e.peerGlobalSeq ≤ x.client.globalSeq) (hseq : x.client.connectSeq = 0)
    (hzero : e.connectSeq = 0) (hcheck : t.policy.resetcheck = true) : Ends t (n + 2) x := by
  have hwrap : x.client.connectSeq + 1 < 2 ^ 32 := by
    rw [hseq]
    decide
  refine ends_of_not_reply he h hex hwrap fun tag reply hv ↦ ?_
  have hj := judges_verdict t x
  rw [hex, hv] at hj
  cases hj with
  | old _ hold => exact absurd hold (Nat.not_lt.mpr hglobal)
  | behind _ _ _ hpos => exact absurd hseq (Nat.ne_of_gt hpos)
  | level _ _ _ _ _ hcheck' => exact hcheck' ⟨hcheck, hzero⟩
  | unknown _ _ _ hlt => exact absurd hlt (by rw [hseq]; exact Nat.not_lt_zero _)

/-- Three messages are enough for a client whose `global_seq` is accepted. -/
theorem ends_of_global {n : ℕ} (h : x.Poised t) (hex : x.existing = some e)
    (hglobal : e.peerGlobalSeq ≤ x.client.globalSeq) (hwrap : x.client.connectSeq + 1 < 2 ^ 32)
    (hwrap' : e.connectSeq + 2 < 2 ^ 32) : Ends t (n + 3) x := by
  have hinc : inc32 e.connectSeq = e.connectSeq + 1 := Nat.mod_eq_of_lt (by omega)
  -- RETRY_SESSION puts the client ahead of the registered connection
  have hretry (hv : x.verdict t = .reply Tag.retrySession { connectSeq := inc32 e.connectSeq })
      (hle : x.client.connectSeq ≤ e.connectSeq)
      (hcheck : ¬ (t.policy.resetcheck = true ∧ e.connectSeq = 0)) : Ends t (n + 3) x := by
    rw [hinc] at hv
    obtain ⟨x', hround, hgoes⟩ := round_retrySession h hv (Nat.lt_succ_of_le hle)
    have hseq : x'.client.connectSeq = e.connectSeq + 1 := hgoes.connectSeq
    refine ends_of_goes hround (by decide) hgoes (ends_of_ahead he hgoes.poised
      (hgoes.existing.trans hex) ?_ ?_ hcheck ?_)
    · rw [hgoes.globalSeq]
      exact hglobal
    · omega
    · omega
  have hj := judges_verdict t x
  rw [hex] at hj
  generalize hv : x.verdict t = v at hj
  cases hj with
  | old _ hold => exact absurd hold (Nat.not_lt.mpr hglobal)
  | behind _ _ _ hpos hlt =>
    exact hretry hv (Nat.le_of_lt hlt) fun h ↦ absurd hlt (by rw [h.2]; exact Nat.not_lt_zero _)
  | level _ _ _ heq _ hcheck => exact hretry hv (Nat.le_of_eq heq) hcheck
  | unknown _ _ _ hlt hcheck hzero =>
    -- RESETSESSION: both sides start anew
    obtain ⟨x', hround, hgoes⟩ := round_resetSession h hv
    refine ends_of_goes hround (by decide) hgoes (ends_of_level_zero he hgoes.poised
      (hgoes.existing.trans hex) ?_ hgoes.connectSeq hzero hcheck)
    rw [hgoes.globalSeq]
    exact hglobal
  | race =>
    obtain ⟨tag, x', hround, htag, hsent⟩ := round_wait h hv
    exact ends_of_conclusive hround htag hsent
  | busy _ _ _ _ _ hbusy => exact absurd (he.busy_eq.symm.trans hbusy) (by decide)
  | replace => exact ends_of_claims he h hex hv hwrap

/-- RETRY_GLOBAL is answered once. -/
theorem ends_of_existing {n : ℕ} (h : x.Poised t) (hex : x.existing = some e)
    (hwrap : x.client.connectSeq + 1 < 2 ^ 32) (hwrap' : e.connectSeq + 2 < 2 ^ 32)
    (hgwrap : max e.peerGlobalSeq x.gseq + 1 < 2 ^ 32) : Ends t (n + 4) x := by
  by_cases hglobal : e.peerGlobalSeq ≤ x.client.globalSeq
  · exact ends_of_global he h hex hglobal hwrap hwrap'
  · have hv : x.verdict t = .reply Tag.retryGlobal { globalSeq := e.peerGlobalSeq } := by
      rw [verdict, hex, Conn.judge, Conn.judgeExisting, if_pos (Nat.not_le.mp hglobal)]
    obtain ⟨x', hround, hgoes⟩ := round_retryGlobal h hv
    have hseq : x'.client.connectSeq = x.client.connectSeq := hgoes.connectSeq
    refine ends_of_goes hround (by decide) hgoes (ends_of_global he hgoes.poised
      (hgoes.existing.trans hex) ?_ ?_ hwrap')
    · rw [hgoes.globalSeq, getGlobalSeq, inc32, Nat.mod_eq_of_lt hgwrap]
      omega
    · rw [hseq]
      exact hwrap

end Existing

/-- The retry exchange is bounded: a client that is about to send a connect message, to a server that
has just accepted its socket and on which nothing else happens, is answered READY, SEQ or WAIT after at
most four of them. -/
theorem retries_bounded (h : x.Poised t) (haccepted : x.server.replacing = 0)
    (hexisting : ∀ e ∈ x.existing, Replaceable e ∧ e.connectSeq + 2 < 2 ^ 32 ∧
      max e.peerGlobalSeq x.gseq + 1 < 2 ^ 32)
    (hwrap : x.client.connectSeq + 1 < 2 ^ 32) :
    ∃ tag x', x.run t 4 = some (tag, x') ∧ tag ∈ Tag.conclusive ∧ x'.sent ≤ x.sent + 4 := by
  cases hex : x.existing with
  | none => exact ends_of_stranger (n := 2) h hex haccepted
  | some e =>
    obtain ⟨he, hewrap, hgwrap⟩ := hexisting e hex
    exact ends_of_existing (n := 0) he h hex hwrap hewrap hgwrap

/-- A server that checks nothing and asks for nothing. -/
def plainTerms : Terms where
  hostType := 0
  protoVersion := 0
  policy := Policy.losslessPeer 0 0
  requireSignatures := false
  peerLess := false
  authorizer := fun _ ↦ none
  authorizerReply := fun _ ↦ []
  random := fun _ ↦ 0
  replaceRandom := 0
  junk := {}

/-- The client is behind the connection registered for it in both numbers. -/
def behind : Exchange where
  client :=
    { state := .connectingSendConnectMsg
      connectSeq := 1
      globalSeq := 1
      policy := Policy.losslessPeer 0 0 }
  gseq := 1
  server := { state := .acceptingWaitConnectMsg }
  existing := some
    { state := .standby
      connectSeq := 2
      peerGlobalSeq := 5
      policy := Policy.losslessPeer 0 0 }
  serverGseq := 0

/-- A client that is behind in both numbers needs all four messages. -/
theorem retries_bounded_behind :
    (behind.run plainTerms 3).isNone = true ∧
    ∃ tag x', behind.run plainTerms 4 = some (tag, x') ∧ tag ∈ Tag.conclusive ∧
      x'.sent ≤ behind.sent + 4 := by
  have hpoised : behind.Poised plainTerms :=
    ⟨rfl, rfl, rfl, rfl, rfl, ⟨by decide, by decide, by decide⟩, fun _ ↦ Nat.zero_le _⟩
  refine ⟨by decide +kernel, retries_bounded hpoised rfl ?_ (by decide)⟩
  rintro e ⟨⟩
  exact ⟨⟨rfl, rfl, by decide, by decide, rfl⟩, by decide, by decide⟩

end Exchange

end AsyncMessenger
