import AsyncMessenger.SendQueue

/-!
# The connection object

The fields of `AsyncConnection` and the operations on them that need nothing from outside: starting
the write watcher, `_try_send` with the lock held throughout, `was_session_reset`, `fault`, `_stop`
and the in-place part of `do_replace`.

Output is kept in units of an arbitrary type `β`, with `enc` giving the units of a frame. The code
is the instance where the units are bytes; a reader who only cares about frames takes
`enc f = [f]`. Everything here is uniform in `β`, because the code never looks inside
`outcoming_bl`.
-/

namespace AsyncMessenger

/-- The end of a socket: the one that called `connect` or the one that was accepted. -/
inductive End
  | con
  | acc
  deriving DecidableEq, Repr

/-- A file descriptor: which socket, and which end of it. -/
structure Fd where
  sock : ℕ
  side : End
  deriving DecidableEq, Repr

/-- What is appended to `outcoming_bl` in one go. The addresses exchanged after the banner are not
spelled out; a SEQ reply is a `reply` followed by a `seq`. -/
inductive Frame
  | banner
  | addrs
  | addr
  | connect (m : MsgConnect) (authorizer : Bytes)
  | reply (r : MsgConnectReply) (authorizerReply : Bytes)
  | seq (n : ℕ)
  | msg (m : Message)
  | ack (n : ℕ)
  | keepalive2
  | keepalive2Ack
  deriving DecidableEq, Repr

/-- `AsyncConnection`. -/
structure Conn (β : Type) where
  state : State := .none
  stateAfterSend : State := .none
  /-- `sd`; `none` is -1. -/
  sd : Option Fd := none
  policy : Policy := {}
  features : ℕ := 0
  globalSeq : ℕ := 0
  connectSeq : ℕ := 0
  peerGlobalSeq : ℕ := 0
  connectMsg : MsgConnect := {}
  connectReply : MsgConnectReply := {}
  isResetFromPeer : Bool := false
  gotBadAuth : Bool := false
  authorizer : Option Bytes := none
  /-- `replacing`: 1 once another connection has handed its socket over, 2 after `do_replace`. -/
  replacing : ℕ := 0
  replacingSd : Option Fd := none
  replacingConnect : MsgConnect := {}
  replacingAuthorizerReply : Bytes := []
  replacingResetSession : Bool := false
  /-- The frames `handle_connect_msg` is about to send and the state it will enter, from where it
  releases the lock to call `_accept_conn` until it sends them. -/
  opening : Option (List Frame × State) := none
  /-- `handle_connect_msg` has released the lock once more, to notify the dispatchers of the accept. -/
  notified : Bool := false
  q : SendQueue := {}
  outcomingBl : List β := []
  keepalive : Bool := false
  keepaliveAck : Bool := false
  sending : Bool := false
  wantSend : Bool := false
  handleWriteDelayed : Bool := false
  inSeq : ℕ := 0
  inSeqAcked : ℕ := 0
  currentHeader : MsgHeader := {}
  currentFooter : MsgFooter := {}
  front : Bytes := []
  middle : Bytes := []
  data : Bytes := []
  msgLeft : ℕ := 0
  stopping : Bool := false
  queueReset : Bool := false
  evRead : Bool := false
  evWrite : Bool := false
  evProcess : Bool := false
  evReplace : Bool := false
  /-- History: the messages handed to the dispatch queue, oldest first. -/
  delivered : List Message := []

/-- What `do_replace` obtains from outside: the random bytes of a session reset, the stack contents
its reply starts from, and what the kernel takes. -/
structure ReplaceInput where
  random : ℕ := 0
  junk : MsgConnectReply := {}
  kernel : Option ℕ := some 0

/-- Increment of a 32-bit counter. -/
def inc32 (n : ℕ) : ℕ := (n + 1) % 2 ^ 32

/-- `AsyncMessenger::get_global_seq(old)` on the messenger's counter. -/
def getGlobalSeq (gseq old : ℕ) : ℕ := inc32 (max old gseq)

namespace Conn

variable {β : Type}

/-- `is_queued`. -/
def isQueued (c : Conn β) : Bool := !c.q.outQ.isEmpty || !c.outcomingBl.isEmpty

/-- `_connect`. -/
def connect (c : Conn β) : Conn β := { c with state := .connecting, evProcess := true }

/-- `start_write`: only a connection with a socket starts its watcher. -/
def startWrite (c : Conn β) : Conn β := if c.sd.isSome then { c with evWrite := true } else c

/-- The end of `_try_send`: the write watcher runs exactly while output is left. -/
def setAction (c : Conn β) : Conn β :=
  if c.outcomingBl = [] then { c with evWrite := false } else c.startWrite

/-- The outcome of a `_try_send` that keeps the lock: the connection, the units the kernel took,
and the length left over (`none` is a negative result). -/
structure Sent (β : Type) where
  conn : Conn β
  wrote : List β
  left : Option ℕ

/-- `_try_send(bl)` under the lock. The kernel takes `some k` units in all, or fails; a failing
`sendmsg` leaves `outcoming_bl` untrimmed and skips the watcher. -/
def trySend (c : Conn β) (bl : List β) (kernel : Option ℕ) : Sent β :=
  let out := c.outcomingBl ++ bl
  if out = [] then ⟨setAction { c with outcomingBl := out }, [], some 0⟩
  else match kernel with
    | none => ⟨{ c with outcomingBl := out }, [], none⟩
    | some k =>
      ⟨setAction { c with outcomingBl := out.drop k }, out.take k, some (out.drop k).length⟩

/-- `discard_out_queue`. -/
def discardOutQueue (c : Conn β) : Conn β :=
  { c with q := c.q.discardOutQueue, outcomingBl := [] }

/-- `was_session_reset`; `random` is what `get_random_bytes` delivers. The received messages still
in the dispatch queue are discarded there. -/
def wasSessionReset (c : Conn β) (random : ℕ) : Conn β :=
  let c := c.discardOutQueue
  { c with
    q := { c.q with
      outSeq := if c.features &&& featureMsgAuth ≠ 0 then random % 2 ^ 31 else 0 }
    inSeq := 0
    connectSeq := 0
    inSeqAcked := 0 }

/-- What `release_throttle(state)` gives back to the message throttle and to the byte throttle. -/
def releaseThrottle (c : Conn β) : ℕ × ℕ :=
  (if State.openMessageThrottleMessage.code < c.state.code ∧
      c.state.code ≤ State.openMessageDispatch.code ∧ c.policy.throttlerMessages then 1 else 0,
    if State.openMessageThrottleBytes.code < c.state.code ∧
      c.state.code ≤ State.openMessageDispatch.code ∧ c.policy.throttlerBytes
    then c.currentHeader.messageSize else 0)

/-- `fault` takes the lossy way out: it drops its lock and calls `_stop`. -/
def faultStops (c : Conn β) : Bool := c.policy.lossy && !c.state.isConnecting

/-- `fault`, past its early returns for a closed and for a lossy connection. -/
def faultRetry (c : Conn β) : Conn β :=
  let c' : Conn β := { c with
    sd := none
    evRead := false
    evWrite := false
    evProcess := false
    handleWriteDelayed := false
    replacing := 0
    q := c.q.requeueSent
    outcomingBl := [] }
  -- with nothing to send it waits for the other side, or for a message
  if c.policy.standby && !c'.isQueued then { c' with state := .standby }
  else if !c.state.isConnecting then
    if c.policy.server || c.state.isAccepting then { c' with state := .standby }
    else { c' with connectSeq := inc32 c.connectSeq, state := .connecting, evProcess := true }
  -- an attempt has failed, and the timer dials again
  else { c' with state := .connecting, evProcess := true }

/-- `_stop`, as far as the connection itself is concerned. -/
def stop (c : Conn β) : Conn β :=
  if c.state = .closed then c
  else
    let c := c.discardOutQueue
    { c with
      replacingSd := none
      evRead := false
      evWrite := false
      evProcess := false
      evReplace := false
      sd := none
      queueReset := false
      replacing := 0
      state := .closed }

/-- `fault`, with the lossy `_stop` taken at once. -/
def fault (c : Conn β) : Conn β :=
  if c.state = .closed then c else if c.faultStops then c.stop else c.faultRetry

/-- The reply `_reply_accept` sends. -/
def acceptReply (c : Conn β) (tag : ℕ) (connect : MsgConnect) (reply : MsgConnectReply)
    (authorizerReply : Bytes) : MsgConnectReply :=
  { reply with
    tag
    features := (connect.features &&& c.policy.featuresSupported) ||| c.policy.featuresRequired
    authorizerLen := authorizerReply.length }

/-- `do_replace` up to its reply: the connection drops its session's socket and output, takes over
the handed socket and goes back to waiting for a connect message. -/
def takeOver (c : Conn β) (random : ℕ) : Conn β :=
  let c := if c.replacingResetSession then
      ({ c with replacingResetSession := false } : Conn β).wasSessionReset random
    else c
  { c with
    sd := c.replacingSd
    replacingSd := none
    evRead := true
    evWrite := false
    handleWriteDelayed := false
    outcomingBl := []
    q := c.q.requeueSent
    replacing := 2
    state := .acceptingWaitConnectMsg }

variable (enc : Frame → List β)

/-- `_reply_accept`. -/
def replyAccept (c : Conn β) (tag : ℕ) (connect : MsgConnect) (reply : MsgConnectReply)
    (authorizerReply : Bytes) (kernel : Option ℕ) : Sent β :=
  let s := c.trySend (enc (.reply (c.acceptReply tag connect reply authorizerReply)
    authorizerReply)) kernel
  match s.left with
  | none => s
  | some _ => { s with conn := { s.conn with state := .acceptingWaitConnectMsg } }

/-- `replacing_authorizer_reply.clear()`. -/
def clearAuthorizerReply (c : Conn β) : Conn β := { c with replacingAuthorizerReply := [] }

/-- `do_replace`. The reply structure is not cleared there; what it holds beside `connect_seq`, and
beside what `_reply_accept` fills in, is `junk`. A reply that cannot be sent faults. -/
def doReplace (c : Conn β) (r : ReplaceInput) : Sent β :=
  let connect := c.replacingConnect
  let c := c.takeOver r.random
  let s := c.replyAccept enc Tag.retrySession connect
    { r.junk with connectSeq := inc32 connect.connectSeq } c.replacingAuthorizerReply r.kernel
  match s.left with
  | none => { s with conn := ({ s.conn with replacing := 0 } : Conn β).fault.clearAuthorizerReply }
  | some _ => { s with conn := s.conn.clearAuthorizerReply }

end Conn

end AsyncMessenger
