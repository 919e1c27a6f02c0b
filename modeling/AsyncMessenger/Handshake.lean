import AsyncMessenger.Connection

/-!
# The handshake

`handle_connect_reply`, the decisions of `handle_connect_msg`, and the states of
`_process_connection`. One call of `processConnection` is one pass through the switch
of `_process_connection`; what the pass obtains from outside the connection (the bytes of a completed
read, what the kernel takes, the registered connection, the authorizer's verdict) comes in an
`Input`, and what it does to the outside is reported in an `Outcome`.

## Where the lock is released

`handle_connect_msg` releases the connection's lock three times, and other threads may act on the
connection each time.

The second time is around `_accept_conn`, which registers the connection, with the reply of the accepted
session prepared; the third is while the dispatchers are told. Another connection may find this one in
the registry in both windows, and judge it. The model splits the pass there: the first part leaves the
prepared reply in `Conn.opening`, the second one tells the dispatchers and sets `Conn.notified`, and the
last one sends the reply. `finishOpen` is the second and the last.

The first time, before the lookup, the lock is only given up to be taken again after the messenger's. No
step is split there. What has been checked by then depends on the messages of the peer and on the policy
that was just taken, and nothing that happens in the gap changes either: other threads queue messages,
ask for a keepalive, set `stopping` or clear `queue_reset`. `mark_disposable` makes the policy lossy,
which the `Input` may say as well. Nobody hands over a socket, since the connection is not registered
yet, or is with `replacing` at 2.
-/

namespace AsyncMessenger

/-- What one completed `read_until` delivered, decoded the way the state that issued it does. -/
inductive Chunk
  | tag (t : ℕ)
  | timespec
  | seq (n : ℕ)
  | header (h : MsgHeader)
  | bytes (bs : Bytes)
  | footer (f : MsgFooter)
  | banner (bs : Bytes)
  | addrs
  | addr
  | bannerAddr (bs : Bytes)
  | connect (m : MsgConnect)
  | reply (r : MsgConnectReply)
  deriving DecidableEq

/-- The result of `read_until`: negative, positive (bytes still missing), or complete. -/
inductive Read
  | error
  | again
  | done (c : Chunk)

/-- What one pass of `do_process` obtains from outside the connection. -/
structure Input (β : Type) where
  read : Read := .again
  /-- What `sendmsg` takes, if the pass sends; `none` is an error. -/
  kernel : Option ℕ := some 0
  /-- The messenger's `global_seq`. -/
  gseq : ℕ := 0
  /-- The descriptor `nonblock_connect` returns; `none` is a failure. -/
  newSd : Option Fd := none
  /-- The checks on addresses and descriptors succeed: `set_nonblock`, `getpeername`, and the
  comparison of the peer's claimed address with the expected one. -/
  addrOk : Bool := true
  /-- `async_msgr->get_authorizer(peer_type, _)`. -/
  newAuthorizer : Option Bytes := none
  /-- `authorizer->verify_reply`. -/
  verifyReply : Bool := true
  /-- What `get_random_bytes` delivers. -/
  random : ℕ := 0
  /-- `async_msgr->get_policy(connect_msg.host_type)`. -/
  newPolicy : Policy := {}
  /-- `async_msgr->get_proto_version`. -/
  protoVersion : ℕ := 0
  hostType : ℕ := 0
  /-- The configuration asks for signed messages from this kind of peer. -/
  requireSignatures : Bool := false
  /-- `verify_authorizer` returned true and set `authorizer_valid`. -/
  authorizerValid : Bool := true
  authorizerReply : Bytes := []
  /-- The connection registered for the peer's address, if it is not this one. -/
  existing : Option (Conn β) := none
  /-- `peer_addr < async_msgr->get_myaddr()`. -/
  peerLess : Bool := false
  /-- The identity of the object `decode_message` would allocate. -/
  newId : ℕ := 0
  /-- This call of `do_process` has received more than `ms_async_max_recv_bytes`. -/
  budgetSpent : Bool := false
  /-- The prefetch buffer is not empty. -/
  prefetched : Bool := false
  /-- For the `do_replace` that a failing pass may end in. -/
  replace : ReplaceInput := {}

/-- How a pass through the switch ends: `break`, `goto fail`, the way out of
`STATE_OPEN_TAG_CLOSE`, `return`, or a failed assertion. -/
inductive Flow
  | next
  | fail
  | close
  | ret
  | abort
  deriving DecidableEq, Repr

/-- What a pass does to the outside. -/
inductive Effect (β : Type)
  | none
  /-- `_accept_conn(this)`. -/
  | register
  /-- The connection registered for the peer is left marked for replacement. -/
  | replace (existing : Conn β)
  /-- `existing->send_keepalive()`. -/
  | keepalive
  /-- One unit taken from the message throttle. -/
  | throttleMessage
  /-- `n` units taken from the byte throttle. -/
  | throttleBytes (n : ℕ)
  /-- The message goes to the dispatch queue or to fast dispatch. -/
  | deliver (m : Message)
  /-- The message is released as an old one. -/
  | discard (m : Message)

/-- The result of one pass. -/
structure Outcome (β : Type) where
  conn : Conn β
  flow : Flow := .next
  /-- The units the kernel took on the connection's socket. -/
  wrote : List β := []
  /-- The messenger's `global_seq` afterwards. -/
  gseq : ℕ
  effect : Effect β := .none

/-- The answers `handle_connect_msg` can give. -/
inductive Verdict
  /-- Answer with the tag and go on waiting for a connect message. -/
  | reply (tag : ℕ) (reply : MsgConnectReply)
  /-- Answer WAIT and make the registered connection's own attempt go through. -/
  | wait
  /-- Answer RETRY_SESSION because the registered connection cannot be replaced now. -/
  | busy
  /-- Hand the socket to the registered connection. -/
  | replace (resetSession resetFromPeer : Bool)
  /-- Accept the session on this connection. -/
  | open
  deriving DecidableEq, Repr

/-- `MSGR_AUTH_MSGRX`. -/
def authMsgrx : ℕ := 2

namespace Conn

variable {β : Type}

/-! ## The connecting side -/

/-- Leave a pass of a connection through `fail`. -/
def failed (c : Conn β) (gseq : ℕ) : Outcome β := { conn := c, flow := .fail, gseq }

/-- Leave a pass in a new state. -/
def goto (c : Conn β) (s : State) (gseq : ℕ) : Outcome β := { conn := { c with state := s }, gseq }

/-- `handle_connect_reply`. The counter of the messenger is part of the result because RETRY_GLOBAL
draws a new number. -/
def handleConnectReply (c : Conn β) (reply : MsgConnectReply) (inp : Input β) : Outcome β :=
  if reply.tag = Tag.features ∨ reply.tag = Tag.badProtoVer then c.failed inp.gseq
  else if reply.tag = Tag.badAuthorizer then
    if c.gotBadAuth then c.failed inp.gseq
    else ({ c with gotBadAuth := true, authorizer := inp.newAuthorizer } : Conn β).goto
      .connectingSendConnectMsg inp.gseq
  else if reply.tag = Tag.resetSession then
    (c.wasSessionReset inp.random).goto .connectingSendConnectMsg inp.gseq
  else if reply.tag = Tag.retryGlobal then
    ({ c with globalSeq := getGlobalSeq inp.gseq reply.globalSeq } : Conn β).goto
      .connectingSendConnectMsg (getGlobalSeq inp.gseq reply.globalSeq)
  else if reply.tag = Tag.retrySession then
    -- assert(reply.connect_seq > connect_seq)
    if reply.connectSeq ≤ c.connectSeq then { conn := c, flow := .abort, gseq := inp.gseq }
    else ({ c with connectSeq := reply.connectSeq } : Conn β).goto .connectingSendConnectMsg inp.gseq
  else if reply.tag = Tag.wait then c.goto .wait inp.gseq
  else if reply.tag = Tag.seq then
    if featMissing c.policy.featuresRequired c.connectReply.features = 0 then
      c.goto .connectingWaitAckSeq inp.gseq
    else c.failed inp.gseq
  else if reply.tag = Tag.ready then
    if featMissing c.policy.featuresRequired c.connectReply.features = 0 then
      c.goto .connectingReady inp.gseq
    else c.failed inp.gseq
  else c.failed inp.gseq

/-- The connect message of `STATE_CONNECTING_SEND_CONNECT_MSG`. -/
def buildConnectMsg (c : Conn β) (hostType protoVersion : ℕ) : MsgConnect :=
  { features := c.policy.featuresSupported
    hostType
    globalSeq := c.globalSeq
    connectSeq := c.connectSeq
    protocolVersion := protoVersion
    authorizerProtocol := if c.authorizer.isSome then authMsgrx else 0
    authorizerLen := (c.authorizer.getD []).length
    flags := if c.policy.lossy then connectLossy else 0 }

/-- `STATE_CONNECTING_READY`. -/
def connectDone (c : Conn β) (gseq : ℕ) : Outcome β :=
  let c' : Conn β := { c with
    peerGlobalSeq := c.connectReply.globalSeq
    policy := { c.policy with lossy := decide (c.connectReply.flags &&& connectLossy ≠ 0) }
    state := .opened
    connectSeq := inc32 c.connectSeq
    features := c.connectReply.features &&& c.connectMsg.features
    queueReset := true }
  -- assert(connect_seq == connect_reply.connect_seq)
  if inc32 c.connectSeq = c.connectReply.connectSeq then { conn := c', gseq }
  else { conn := c, flow := .abort, gseq }

/-! ## The accepting side -/

/-- `handle_connect_msg`, when another connection is registered for the peer: the tests from
RETRY_GLOBAL down to the jump to `replace`. -/
def judgeExisting (c e : Conn β) (connect : MsgConnect) (peerLess : Bool) : Verdict :=
  -- an attempt that is older than the one the peer is registered with
  if connect.globalSeq < e.peerGlobalSeq then
    .reply Tag.retryGlobal { globalSeq := e.peerGlobalSeq }
  else if e.policy.lossy then .replace true false
  -- the peer has reset its session
  else if connect.connectSeq = 0 ∧ 0 < e.connectSeq then .replace c.policy.resetcheck true
  -- an old attempt, or the peer has not seen the last READY
  else if connect.connectSeq < e.connectSeq then
    .reply Tag.retrySession { connectSeq := inc32 e.connectSeq }
  else if connect.connectSeq = e.connectSeq then
    -- no race: the peer should raise its `connect_seq`
    if e.state = .opened ∨ e.state = .standby then
      if c.policy.resetcheck ∧ e.connectSeq = 0 then .replace false false
      else .reply Tag.retrySession { connectSeq := inc32 e.connectSeq }
    -- a race: the incoming attempt wins, or the own one
    else if peerLess ∨ e.policy.server then .replace false false
    else .wait
  -- a session the peer knows, and this side does not
  else if c.policy.resetcheck ∧ e.connectSeq = 0 then .reply Tag.resetSession {}
  else .replace false false

/-- The registered connection cannot be replaced now: it is being replaced, closed, or marked
down. -/
def busy (e : Conn β) : Bool :=
  e.replacing != 0 || e.state == .closed || e.stopping || e.state == .openTagClose

/-- `handle_connect_msg` after the authorizer has been accepted. -/
def judge (c : Conn β) (existing : Option (Conn β)) (connect : MsgConnect) (peerLess : Bool) :
    Verdict :=
  match existing with
  | none =>
    -- a new session starts from 0
    if c.replacing = 0 ∧ 0 < connect.connectSeq then .reply Tag.resetSession {} else .open
  | some e =>
    match c.judgeExisting e connect peerLess with
    | .replace resetSession resetFromPeer =>
      if e.busy then .busy else .replace resetSession resetFromPeer
    | v => v

/-- The mark `handle_connect_msg` leaves on the registered connection at `replace`. -/
def markReplacing (e : Conn β) (sd : Option Fd) (connect : MsgConnect) (authorizerReply : Bytes)
    (resetSession resetFromPeer : Bool) : Conn β :=
  { e with
    replacing := 1
    replacingResetSession := resetSession
    replacingSd := sd
    isResetFromPeer := resetFromPeer
    replacingConnect := connect
    replacingAuthorizerReply := authorizerReply
    evReplace := true }

/-- The `open` part of `handle_connect_msg`, up to the point where it releases the lock. -/
def openSession (c : Conn β) (connect : MsgConnect) (authorizerReply : Bytes) (protoVersion : ℕ)
    (gseq : ℕ) : Outcome β :=
  let resume := c.replacing ≠ 0 ∧ !c.isResetFromPeer
  let c' : Conn β := { c with
    connectSeq := inc32 connect.connectSeq
    peerGlobalSeq := connect.globalSeq
    features := c.policy.featuresSupported &&& connect.features }
  let c' : Conn β := if resume then c' else { c' with
    q := c'.q.discardRequeuedUpTo 0
    isResetFromPeer := false
    inSeq := 0
    inSeqAcked := 0 }
  let gseq := getGlobalSeq gseq 0
  let reply : MsgConnectReply :=
    { tag := if resume then Tag.seq else Tag.ready
      features := c.policy.featuresSupported
      globalSeq := gseq
      connectSeq := c'.connectSeq
      protocolVersion := protoVersion
      authorizerLen := authorizerReply.length
      flags := if c.policy.lossy then connectLossy else 0 }
  let next := if resume then State.acceptingWaitSeq else State.acceptingReady
  { conn := { c' with
      opening := some (.reply reply authorizerReply :: if resume then [.seq c'.inSeq] else [], next) }
    gseq
    effect := .register }

variable (enc : Frame → List β)

/-- The common end of the sending states: enter `next` once everything is written, or wait in
`STATE_WAIT_SEND`. -/
def sendThen (c : Conn β) (frames : List Frame) (next : State) (inp : Input β) : Outcome β :=
  let s := c.trySend (frames.flatMap enc) inp.kernel
  match s.left with
  | none => { conn := s.conn, flow := .fail, gseq := inp.gseq }
  | some 0 => { conn := { s.conn with state := next }, wrote := s.wrote, gseq := inp.gseq }
  | some (_ + 1) =>
    { conn := { s.conn with state := .waitSend, stateAfterSend := next }
      wrote := s.wrote
      gseq := inp.gseq }

/-- A refusal sent by `_reply_accept`. -/
def refuse (c : Conn β) (tag : ℕ) (connect : MsgConnect) (reply : MsgConnectReply)
    (authorizerReply : Bytes) (inp : Input β) (effect : Effect β) : Outcome β :=
  let s := c.replyAccept enc tag connect { reply with protocolVersion := inp.protoVersion }
    authorizerReply inp.kernel
  match s.left with
  | none => { conn := s.conn, flow := .fail, gseq := inp.gseq, effect }
  | some _ => { conn := s.conn, wrote := s.wrote, gseq := inp.gseq, effect }

/-- The refusal of a connection attempt that meets a busy registered connection: the only one that
leaves `handle_connect_msg` through its label `fail` when it cannot be sent. -/
def refuseBusy (c : Conn β) (connect : MsgConnect) (inp : Input β) : Outcome β :=
  let o := c.refuse enc Tag.retrySession connect { connectSeq := inc32 connect.connectSeq }
    inp.authorizerReply inp .none
  if o.flow = .fail then { o with conn := { o.conn with replacing := 0 } } else o

/-- `handle_connect_msg` turns the verdict into action. -/
def carryOut (c : Conn β) (connect : MsgConnect) (inp : Input β) : Verdict → Outcome β
  | .reply tag reply => c.refuse enc tag connect reply inp.authorizerReply inp .none
  | .wait => c.refuse enc Tag.wait connect {} inp.authorizerReply inp .keepalive
  | .busy => c.refuseBusy enc connect inp
  | .replace resetSession resetFromPeer =>
    { conn := ({ c with sd := none } : Conn β).stop
      gseq := inp.gseq
      effect := match inp.existing with
        | none => .none
        | some e => .replace (e.markReplacing c.sd connect inp.authorizerReply resetSession
            resetFromPeer) }
  | .open => c.openSession connect inp.authorizerReply inp.protoVersion inp.gseq

/-- The configuration may require signed messages: `policy.features_required |= MSG_AUTH`. -/
def requireSignatures (c : Conn β) (inp : Input β) : Conn β :=
  if c.connectMsg.authorizerProtocol = authMsgrx ∧ inp.requireSignatures then
    { c with policy := { c.policy with
        featuresRequired := c.policy.featuresRequired ||| featureMsgAuth } }
  else c

/-- `handle_connect_msg`, up to the release of the lock. -/
def handleConnectMsg (c : Conn β) (inp : Input β) : Outcome β :=
  let connect := c.connectMsg
  if connect.protocolVersion ≠ inp.protoVersion then
    c.refuse enc Tag.badProtoVer connect {} [] inp .none
  else
    let c := c.requireSignatures inp
    if featMissing c.policy.featuresRequired connect.features ≠ 0 then
      c.refuse enc Tag.features connect {} [] inp .none
    else if !inp.authorizerValid then
      c.refuse enc Tag.badAuthorizer connect {} inp.authorizerReply inp .none
    else c.carryOut enc connect inp (c.judge inp.existing connect inp.peerLess)

/-- `handle_connect_msg` after it has taken the lock again: notify the dispatchers, which takes a second
release of the lock, or send the prepared reply. `_accept_conn` cannot have failed, since the lookup and
the registration happen under one hold of the messenger's lock. -/
def finishOpen (c : Conn β) (frames : List Frame) (next : State) (inp : Input β) : Outcome β :=
  if !c.notified ∧ (c.replacing = 0 ∨ c.replacing = 2) ∧ !c.queueReset then
    { conn := { c with queueReset := true, notified := true }, gseq := inp.gseq }
  else
    let o := ({ c with opening := none, notified := false } : Conn β).sendThen enc frames next inp
    { o with conn := { o.conn with replacing := 0 } }

/-! ## One pass of `_process_connection` -/

/-- Continue with the decoded data of a completed read; a failed read fails the pass, an incomplete
one leaves the connection as it is. -/
def onRead (c : Conn β) (inp : Input β) (k : Chunk → Outcome β) : Outcome β :=
  match inp.read with
  | .error => c.failed inp.gseq
  | .again => { conn := c, gseq := inp.gseq }
  | .done chunk => k chunk

/-- `STATE_WAIT_SEND`: go on once everything is written. -/
def flushed (c : Conn β) (inp : Input β) : Outcome β :=
  if c.outcomingBl ≠ [] then { conn := { c with evRead := false }, gseq := inp.gseq }
  -- assert(state_after_send)
  else if c.stateAfterSend = .none then { conn := c, flow := .abort, gseq := inp.gseq }
  else ({ c with stateAfterSend := .none, evRead := true } : Conn β).goto c.stateAfterSend inp.gseq

/-- `STATE_CONNECTING`: draw a number, forget the last attempt, and dial. -/
def dial (c : Conn β) (inp : Input β) : Outcome β :=
  let gseq := getGlobalSeq inp.gseq 0
  let c' : Conn β := { c with
    gotBadAuth := false
    authorizer := none
    connectMsg := {}
    connectReply := {}
    globalSeq := gseq
    sd := inp.newSd
    evRead := inp.newSd.isSome
    evWrite := false }
  -- assert(!policy.server)
  if c.policy.server then { conn := c, flow := .abort, gseq := inp.gseq }
  else if inp.newSd.isSome then c'.goto .connectingWaitBanner gseq
  else c'.failed gseq

/-- `STATE_CONNECTING_SEND_CONNECT_MSG`. -/
def sendConnectMsg (c : Conn β) (inp : Input β) : Outcome β :=
  let c : Conn β := if c.gotBadAuth then c else { c with authorizer := inp.newAuthorizer }
  let msg := c.buildConnectMsg inp.hostType inp.protoVersion
  ({ c with connectMsg := msg } : Conn β).sendThen enc [.connect msg (c.authorizer.getD [])]
    .connectingWaitConnectReply inp

/-- `STATE_ACCEPTING_WAIT_CONNECT_MSG_AUTH`, once the authorizer is there. -/
def gotConnectMsg (c : Conn β) (inp : Input β) : Outcome β :=
  ({ c with policy := inp.newPolicy } : Conn β).handleConnectMsg enc inp

/-- `_process_connection`. -/
def processConnection (c : Conn β) (inp : Input β) : Outcome β :=
  match c.state with
  | .waitSend => c.flushed inp
  | .connecting => c.dial inp
  | .connectingWaitBanner =>
    c.onRead inp fun
      | .banner bs =>
        if bs = AsyncMessenger.banner then
          c.sendThen enc [.banner] .connectingWaitIdentifyPeer inp
        else c.failed inp.gseq
      | _ => c.failed inp.gseq
  | .connectingWaitIdentifyPeer =>
    c.onRead inp fun
      | .addrs =>
        if inp.addrOk then c.sendThen enc [.addr] .connectingSendConnectMsg inp
        else c.failed inp.gseq
      | _ => c.failed inp.gseq
  | .connectingSendConnectMsg => c.sendConnectMsg enc inp
  | .connectingWaitConnectReply =>
    c.onRead inp fun
      | .reply r =>
        ({ c with connectReply := { r with features := sanitizeFeatures r.features } } : Conn β).goto
          .connectingWaitConnectReplyAuth inp.gseq
      | _ => c.failed inp.gseq
  | .connectingWaitConnectReplyAuth =>
    if c.connectReply.authorizerLen = 0 then c.handleConnectReply c.connectReply inp
    else if stateBufferSize < c.connectReply.authorizerLen then c.failed inp.gseq
    else c.onRead inp fun _ ↦
      if c.authorizer.isSome ∧ !inp.verifyReply then c.failed inp.gseq
      else c.handleConnectReply c.connectReply inp
  | .connectingWaitAckSeq =>
    c.onRead inp fun
      | .seq n =>
        ({ c with q := c.q.discardRequeuedUpTo n } : Conn β).sendThen enc [.seq c.inSeq]
          .connectingReady inp
      | _ => c.failed inp.gseq
  | .connectingReady => c.connectDone inp.gseq
  | .accepting =>
    if inp.addrOk then c.sendThen enc [.banner, .addrs] .acceptingWaitBannerAddr inp
    else c.failed inp.gseq
  | .acceptingWaitBannerAddr =>
    c.onRead inp fun
      | .bannerAddr bs =>
        if bs = AsyncMessenger.banner then c.goto .acceptingWaitConnectMsg inp.gseq
        else c.failed inp.gseq
      | _ => c.failed inp.gseq
  | .acceptingWaitConnectMsg =>
    c.onRead inp fun
      | .connect m =>
        ({ c with connectMsg := { m with features := sanitizeFeatures m.features } } : Conn β).goto
          .acceptingWaitConnectMsgAuth inp.gseq
      | _ => c.failed inp.gseq
  | .acceptingWaitConnectMsgAuth =>
    match c.opening with
    | some (frames, next) => c.finishOpen enc frames next inp
    | none =>
      if c.connectMsg.authorizerLen = 0 then c.gotConnectMsg enc inp
      else c.onRead inp fun _ ↦ c.gotConnectMsg enc inp
  | .acceptingWaitSeq =>
    c.onRead inp fun
      | .seq n =>
        ({ c with q := c.q.discardRequeuedUpTo n } : Conn β).goto .acceptingReady inp.gseq
      | _ => c.failed inp.gseq
  | .acceptingReady =>
    ({ c with connectMsg := {} } : Conn β).goto .opened inp.gseq
  | _ => { conn := c, flow := .abort, gseq := inp.gseq }

end Conn

end AsyncMessenger
