import AsyncMessenger.Dialogue

/-!
# Two messengers dial each other

Two messengers, each with one connection registered for the other, and all the sockets between them.
A messenger dials from its registered connection; on the other side the socket is served by an
accepted connection until `handle_connect_msg` registers it, or hands the socket over to the
connection that is registered there already, or the dialling end is closed.

A step is one pass of `do_process`, one `handle_write`, a `do_replace`, or a call from outside.
Nobody calls `mark_down`, and the network breaks nothing: a connection fails only in `STATE_WAIT`,
or when the other end of its socket has been closed, and every socket that is closed is closed by
`do_replace`, by `fault` or by `_stop`. A failed assertion ends the run.

The comparison of the two addresses is left to the step that needs it, since a messenger may not
know its own address yet.
-/

namespace AsyncMessenger

/-- The messages a connection has still to send, or to have acknowledged. -/
def SendQueue.pending (q : SendQueue) : List Message := q.sent ++ q.outQ.elements

/-- The read is complete. -/
def Read.isDone : Read → Bool
  | .done _ => true
  | _ => false

namespace Conn

variable (K : Codec) (flags : CrcFlags)

/-- The loop of `handle_write` over `out_q`, for `n` messages. -/
def sendSome (c : Conn Chunk) : ℕ → Conn Chunk
  | 0 => c
  | n + 1 => match c.q.getNextOutgoing with
    | none => c
    | some (m, q) => sendSome (({ c with q } : Conn Chunk).send K flags Frame.chunks m) n

/-- The ACK of `handle_write`, if one is due. -/
def sendAck (c : Conn Chunk) : Conn Chunk :=
  if c.inSeqAcked < c.inSeq then
    { c with inSeqAcked := c.inSeq, outcomingBl := c.outcomingBl ++ (Frame.ack c.inSeq).chunks }
  else c

/-- `handle_write` with the lock held throughout: in an open session `n` messages go out with what
else is due, a connection that is being made only writes what is pending. -/
def writeOut (c : Conn Chunk) (n : ℕ) (kernel : Option ℕ) : Sent Chunk :=
  if c.state.isOpen then
    (((c.sendKeepalive Frame.chunks).sendKeepaliveAck Frame.chunks).sendSome K flags n).sendAck.trySend
      [] kernel
  else if c.state ≠ .connecting ∧ c.state ≠ .standby ∧ c.state ≠ .wait then c.trySend [] kernel
  else ⟨c, [], some 0⟩

/-- `send_message`. What an open session sends in the calling thread is left to `handle_write`. -/
def enqueue (c : Conn Chunk) (m : Message) : Conn Chunk :=
  if c.stopping ∨ c.state = .closed then c
  else
    let c : Conn Chunk := { c with q := c.q.push m }
    if c.state = .standby ∧ !c.policy.server then c.connect else c.startWrite

/-- `send_keepalive`. -/
def askKeepalive (c : Conn Chunk) : Conn Chunk :=
  if c.state = .closed then c else ({ c with keepalive := true } : Conn Chunk).startWrite

/-- `handle_connect_msg` comes as far as the registered connection. -/
def looksUp (c : Conn Chunk) (inp : Input Chunk) : Bool :=
  c.state == .acceptingWaitConnectMsgAuth && c.opening.isNone &&
    (c.connectMsg.authorizerLen == 0 || inp.read.isDone) &&
    c.connectMsg.protocolVersion == inp.protoVersion &&
    featMissing (({ c with policy := inp.newPolicy } : Conn Chunk).requireSignatures
      inp).policy.featuresRequired c.connectMsg.features == 0 &&
    inp.authorizerValid

/-- The pass takes the branch of `handle_connect_msg` that sets `reset_from_peer`. -/
def assumesReset (c : Conn Chunk) (inp : Input Chunk) : Bool :=
  c.looksUp inp && match inp.existing with
    | none => false
    | some e => match ({ c with policy := inp.newPolicy } : Conn Chunk).judgeExisting e c.connectMsg
        inp.peerLess with
      | .replace _ fromPeer => fromPeer
      | _ => false

/-- The pass that has led to `c'` has called `was_session_reset`: a reply RESETSESSION. -/
def hearsReset (c c' : Conn Chunk) : Bool :=
  c.state == .connectingWaitConnectReplyAuth && c.connectReply.tag == Tag.resetSession &&
    c'.state == .connectingSendConnectMsg

end Conn

/-- What has become of the accepting end of a socket. -/
inductive Reception
  /-- An accepted connection has it that nobody has registered. -/
  | serving (c : Conn Chunk)
  /-- It has been given to the registered connection, which has not taken it over yet. -/
  | handed
  /-- The registered connection has it. -/
  | taken
  | closed

def Reception.isClosed : Reception → Bool
  | .closed => true
  | _ => false

/-- A socket between the two messengers. -/
structure Line where
  dialler : Bool := false
  reception : Reception := .closed
  toAcceptor : List Chunk := []
  toClient : List Chunk := []

/-- Two messengers that dial each other. -/
structure Encounter where
  /-- The messenger with the larger address. -/
  larger : Bool
  /-- `get_policy` for the type of the peer. -/
  policy : Bool → Policy
  /-- The connection registered for the peer. -/
  reg : Bool → Option (Conn Chunk) := fun _ ↦ none
  /-- `global_seq`. -/
  gseq : Bool → ℕ := fun _ ↦ 0
  /-- The sockets so far. -/
  count : ℕ := 0
  line : ℕ → Line := fun _ ↦ {}
  /-- History: `handle_connect_msg` has set `reset_from_peer`. -/
  mistaken : Bool := false
  /-- History: `was_session_reset` has run. -/
  reset : Bool := false
  /-- History: what `discard_out_queue` has dropped. -/
  discarded : List Message := []

namespace Encounter

/-- What may happen next. -/
inductive Act
  /-- `get_connection` of one messenger for the other. -/
  | getConnection (b : Bool)
  | sendMessage (b : Bool) (m : Message)
  | sendKeepalive (b : Bool)
  /-- A pass of the registered connection. -/
  | pass (b : Bool) (arrival : Arrival) (inp : Input Chunk)
  /-- `handle_write` of the registered connection. -/
  | write (b : Bool) (n : ℕ) (kernel : Option ℕ) (r : ReplaceInput)
  /-- `handle_replace` of the registered connection. -/
  | handleReplace (b : Bool) (r : ReplaceInput)
  /-- A pass of the connection that serves socket `k`. -/
  | serve (k : ℕ) (arrival : Arrival) (inp : Input Chunk)
  | serveWrite (k : ℕ) (kernel : Option ℕ)

/-- The messenger that accepts socket `k`. -/
def acceptor (s : Encounter) (k : ℕ) : Bool := !(s.line k).dialler

/-- The descriptor of the registered connection; `none` is -1. -/
def sd (s : Encounter) (b : Bool) : Option Fd := (s.reg b).bind Conn.sd

/-- The dialling end of socket `k` is still there. -/
def holds (s : Encounter) (k : ℕ) : Bool := s.sd (s.line k).dialler == some ⟨k, .con⟩

/-- What has arrived at an end of a socket. -/
def arrived (s : Encounter) : Option Fd → List Chunk
  | none => []
  | some ⟨k, .con⟩ => (s.line k).toClient
  | some ⟨k, .acc⟩ => (s.line k).toAcceptor

/-- The other end of a socket has been closed. -/
def peerGone (s : Encounter) : Option Fd → Bool
  | none => false
  | some ⟨k, .con⟩ => (s.line k).reception.isClosed
  | some ⟨k, .acc⟩ => !s.holds k

def putReg (s : Encounter) (b : Bool) (c : Conn Chunk) : Encounter :=
  { s with reg := Function.update s.reg b (some c) }

def putLine (s : Encounter) (k : ℕ) (l : Line) : Encounter :=
  { s with line := Function.update s.line k l }

/-- At an end of a socket all but `rest` has been read, and `wrote` has been written. -/
def transfer (s : Encounter) (fd : Option Fd) (rest wrote : List Chunk) : Encounter :=
  match fd with
  | none => s
  | some ⟨k, .con⟩ => s.putLine k { s.line k with
      toClient := rest, toAcceptor := (s.line k).toAcceptor ++ wrote }
  | some ⟨k, .acc⟩ => s.putLine k { s.line k with
      toAcceptor := rest, toClient := (s.line k).toClient ++ wrote }

/-- The accepting end of socket `k` changes hands. -/
def receive (s : Encounter) (k : ℕ) (r : Reception) : Encounter :=
  s.putLine k { s.line k with reception := r }

/-- A registered connection closes its socket; at the dialling end that shows in its descriptor. -/
def hangUp (s : Encounter) : Option Fd → Encounter
  | some ⟨k, .acc⟩ => s.receive k .closed
  | _ => s

/-- `was_session_reset` has run on the connection. -/
def forget (s : Encounter) (c : Conn Chunk) (resets : Bool) : Encounter :=
  if resets then { s with reset := true, discarded := s.discarded ++ c.q.pending } else s

/-- The registered connection has dialled. -/
def dial (s : Encounter) (b : Bool) : Encounter :=
  { s.putLine s.count
      { dialler := b, reception := .serving (Node.accepted ⟨s.count, .acc⟩).conn } with
    count := s.count + 1 }

/-- `do_replace`. -/
def doReplace (s : Encounter) (b : Bool) (c : Conn Chunk) (r : ReplaceInput) : Option Encounter :=
  match c.replacingSd with
  -- assert(replacing_sd >= 0)
  | none => none
  | some fd =>
    let t := c.doReplace Frame.chunks r
    let s := (s.forget c c.replacingResetSession).hangUp c.sd
    match t.left with
    | none => if s.peerGone (some fd) then some ((s.receive fd.sock .closed).putReg b t.conn) else none
    | some _ =>
      some (((s.receive fd.sock .taken).transfer (some fd) (s.arrived (some fd)) t.wrote).putReg b
        t.conn)

/-- The label `fail` of `do_process` and of `handle_write`. -/
def fail (s : Encounter) (b : Bool) (c : Conn Chunk) (r : ReplaceInput) : Option Encounter :=
  if c.replacing = 1 then s.doReplace b c r else some ((s.hangUp c.sd).putReg b c.fault)

variable (K : Codec) (flags : CrcFlags)

/-- A pass of the registered connection `c`. -/
def pass (s : Encounter) (b : Bool) (c : Conn Chunk) (arrival : Arrival) (inp : Input Chunk) :
    Option Encounter :=
  let o := c.pass K flags Frame.chunks { inp with
    read := (c.fetch (s.arrived c.sd) arrival).1
    newSd := inp.newSd.map fun _ ↦ ⟨s.count, .con⟩
    existing := none
    newPolicy := s.policy b
    gseq := s.gseq b }
  let s : Encounter := { s.forget c (c.hearsReset o.conn) with gseq := Function.update s.gseq b o.gseq }
  match o.flow with
  | .abort => none
  -- nobody sends a close tag
  | .close => none
  | .fail =>
    if c.state = .wait ∨ s.peerGone c.sd then s.fail b o.conn inp.replace else none
  | _ =>
    if c.state = .connecting then some ((s.dial b).putReg b o.conn)
    else some ((s.transfer c.sd (c.fetch (s.arrived c.sd) arrival).2 o.wrote).putReg b o.conn)

/-- `handle_write` of the registered connection `c`. -/
def write (s : Encounter) (b : Bool) (c : Conn Chunk) (n : ℕ) (kernel : Option ℕ)
    (r : ReplaceInput) : Option Encounter :=
  let t := c.writeOut K flags n kernel
  match t.left with
  | none => if s.peerGone c.sd then s.fail b t.conn r else none
  | some _ => some ((s.transfer c.sd (s.arrived c.sd) t.wrote).putReg b t.conn)

/-- A pass of the connection `c` that serves socket `k`. -/
def serve (s : Encounter) (k : ℕ) (c : Conn Chunk) (arrival : Arrival) (inp : Input Chunk) :
    Option Encounter :=
  let b := s.acceptor k
  let inp := { inp with
    read := (c.fetch (s.line k).toAcceptor arrival).1
    existing := s.reg b
    newPolicy := s.policy b
    gseq := s.gseq b }
  let o := c.pass K flags Frame.chunks inp
  let s : Encounter := { s with
    gseq := Function.update s.gseq b o.gseq
    mistaken := s.mistaken || c.assumesReset inp }
  let moved := s.transfer (some ⟨k, .acc⟩) (c.fetch (s.line k).toAcceptor arrival).2 o.wrote
  match o.flow with
  | .abort => none
  | .close => none
  | .fail => if s.peerGone (some ⟨k, .acc⟩) then some (s.receive k .closed) else none
  | _ => match o.effect with
    | .register => some ((moved.receive k .taken).putReg b o.conn)
    | .replace e =>
      some { (moved.receive k .handed).putReg b e with discarded := s.discarded ++ c.q.pending }
    | .keepalive => match s.reg b with
      | none => some (moved.receive k (.serving o.conn))
      | some e => some ((moved.receive k (.serving o.conn)).putReg b e.askKeepalive)
    | _ => some (moved.receive k (.serving o.conn))

/-- `handle_write` of the connection `c` that serves socket `k`. -/
def serveWrite (s : Encounter) (k : ℕ) (c : Conn Chunk) (kernel : Option ℕ) : Option Encounter :=
  let t := c.trySend [] kernel
  match t.left with
  | none => if s.peerGone (some ⟨k, .acc⟩) then some (s.receive k .closed) else none
  | some _ =>
    some ((s.transfer (some ⟨k, .acc⟩) (s.line k).toAcceptor t.wrote).receive k (.serving t.conn))

/-- One step. -/
def step (s : Encounter) : Act → Option Encounter
  | .getConnection b => match s.reg b with
    | none => some (s.putReg b ({ policy := s.policy b } : Conn Chunk).connect)
    | some _ => some s
  | .sendMessage b m => (s.reg b).map fun c ↦ s.putReg b (c.enqueue m)
  | .sendKeepalive b => (s.reg b).map fun c ↦ s.putReg b c.askKeepalive
  | .pass b arrival inp => (s.reg b).bind fun c ↦ s.pass K flags b c arrival inp
  | .write b n kernel r => (s.reg b).bind fun c ↦ s.write K flags b c n kernel r
  | .handleReplace b r =>
    (s.reg b).bind fun c ↦ if c.replacing = 1 then s.doReplace b c r else none
  | .serve k arrival inp => match (s.line k).reception with
    | .serving c => s.serve K flags k c arrival inp
    | _ => none
  | .serveWrite k kernel => match (s.line k).reception with
    | .serving c => s.serveWrite k c kernel
    | _ => none

end Encounter

end AsyncMessenger
