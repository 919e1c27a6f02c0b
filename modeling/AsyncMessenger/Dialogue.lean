import AsyncMessenger.Moves
import AsyncMessenger.Node

/-!
# Two connections on one socket

A socket between a connection that dialled and whoever answers on the other side. Each end runs the
passes of `do_process` and writes its pending output; the socket carries, in each direction, the
pieces of the frames that the reader asks for one by one. A piece that is only partly
written is not there yet for the reader, so nothing is lost by keeping the pieces whole.

The accepting end may change hands: the accepted connection gives the socket to the connection that
is registered for the peer, and that one answers from its `do_replace` on. Everything else that
`handle_connect_msg` looks at (the registered connection, the policy, the verdict on the authorizer,
the messenger's counter) may be different in every pass.
-/

namespace AsyncMessenger

/-- A section that a reader asks for only if it is not empty. -/
def sectionChunk (bs : Bytes) : List Chunk := if bs = [] then [] else [.bytes bs]

/-- The pieces of a frame in the order in which they are read. -/
def Frame.chunks : Frame → List Chunk
  | .banner => [.banner AsyncMessenger.banner]
  | .addrs => [.addrs]
  | .addr => [.addr]
  | .connect m auth => .connect m :: sectionChunk auth
  | .reply r auth => .reply r :: sectionChunk auth
  | .seq n => [.seq n]
  | .msg m =>
    .tag Tag.msg :: .header m.header ::
      (sectionChunk m.payload ++ sectionChunk m.middle ++ sectionChunk m.data ++ [.footer m.footer])
  | .ack n => [.tag Tag.ack, .seq n]
  | .keepalive2 => [.tag Tag.keepalive2, .timespec]
  | .keepalive2Ack => [.tag Tag.keepalive2Ack, .timespec]

/-- The frames of an open session. -/
def Frame.ofSession : Frame → Bool
  | .msg _ => true
  | .ack _ => true
  | .keepalive2 => true
  | .keepalive2Ack => true
  | _ => false

/-- What a read meets: a broken socket, too few bytes, or what it asks for. -/
inductive Arrival
  | error
  | nothing
  | next
  deriving DecidableEq, Repr

namespace Conn

/-- A read on the pieces that have arrived, and what is left of them. A state that reads nothing takes
nothing; the banner and the address of a client are read in one go. -/
def fetch (c : Conn Chunk) (arrived : List Chunk) : Arrival → Read × List Chunk
  | .error => (.error, arrived)
  | .nothing => (.again, arrived)
  | .next =>
    if c.readCall = none then (.again, arrived)
    else if c.state = .acceptingWaitBannerAddr then
      match arrived with
      | .banner bs :: .addr :: rest => (.done (.bannerAddr bs), rest)
      | _ => (.again, arrived)
    else match arrived with
      | [] => (.again, [])
      | chunk :: rest => (.done chunk, rest)

/-- `handle_write` with the lock held throughout: an open connection appends frames of the session,
any other one only writes what is pending. What happens to `out_q` and to the acknowledgements has
no part in the handshake. -/
def write (c : Conn Chunk) (q : SendQueue) (frames : List Frame) (kernel : Option ℕ) : Sent Chunk :=
  if c.state.isOpen then
    ({ c with q } : Conn Chunk).trySend ((frames.filter Frame.ofSession).flatMap Frame.chunks) kernel
  else c.trySend [] kernel

end Conn

/-- The accepting end of the socket. -/
inductive Acceptor
  | serving (c : Conn Chunk)
  /-- The socket and the connect message have been given to the registered connection, which has not
  taken it over yet. -/
  | handed (connect : MsgConnect)
  | gone

/-- The two ends of a socket and what is under way between them. -/
structure Dialogue where
  /-- The connecting end, until it leaves the socket. -/
  client : Option (Conn Chunk)
  acceptor : Acceptor
  toAcceptor : List Chunk := []
  toClient : List Chunk := []
  /-- An assertion of the client has failed. -/
  aborted : Bool := false
  /-- History: the accepting connection when it sent READY or SEQ. -/
  answered : Option (Conn Chunk) := none

/-- What may happen next on the socket. -/
inductive Turn
  | client (arrival : Arrival) (inp : Input Chunk)
  | clientWrite (q : SendQueue) (frames : List Frame) (kernel : Option ℕ)
  | clientLeaves
  | acceptor (arrival : Arrival) (inp : Input Chunk)
  | acceptorWrite (q : SendQueue) (frames : List Frame) (kernel : Option ℕ)
  | acceptorLeaves
  /-- The registered connection `e` runs `do_replace`. -/
  | replace (e : Conn Chunk) (r : ReplaceInput)

namespace Dialogue

variable (K : Codec) (flags : CrcFlags)

/-- One pass of the client. A connection that fails leaves the socket. -/
def clientPass (d : Dialogue) (c : Conn Chunk) (arrival : Arrival) (inp : Input Chunk) :
    Dialogue :=
  let o := c.pass K flags Frame.chunks { inp with read := (c.fetch d.toClient arrival).1 }
  match o.flow with
  | .abort => { d with client := none, aborted := true }
  | .fail => { d with client := none }
  | .close => { d with client := none }
  | _ => { d with
      client := some o.conn
      toClient := (c.fetch d.toClient arrival).2
      toAcceptor := d.toAcceptor ++ o.wrote }

/-- One pass of the accepting connection. -/
def acceptorPass (d : Dialogue) (s : Conn Chunk) (arrival : Arrival) (inp : Input Chunk) :
    Dialogue :=
  let o := s.pass K flags Frame.chunks { inp with read := (s.fetch d.toAcceptor arrival).1 }
  match o.flow with
  | .abort => { d with acceptor := .gone }
  | .fail => { d with acceptor := .gone }
  | .close => { d with acceptor := .gone }
  | _ => { d with
      acceptor := match o.effect with
        | .replace _ => .handed s.connectMsg
        | _ => .serving o.conn
      toAcceptor := (s.fetch d.toAcceptor arrival).2
      toClient := d.toClient ++ o.wrote
      -- the reply of an accepted session has left `Conn.opening`
      answered := if s.opening.isSome ∧ o.conn.opening = none then some s else d.answered }

/-- One turn; `none` if it is not possible. -/
def step (d : Dialogue) : Turn → Option Dialogue
  | .client arrival inp => d.client.map fun c ↦ d.clientPass K flags c arrival inp
  | .clientWrite q frames kernel => d.client.map fun c ↦
      let s := c.write q frames kernel
      match s.left with
      | none => { d with client := none }
      | some _ => { d with client := some s.conn, toAcceptor := d.toAcceptor ++ s.wrote }
  | .clientLeaves => some { d with client := none }
  | .acceptor arrival inp =>
    match d.acceptor with
    | .serving c => some (d.acceptorPass K flags c arrival inp)
    | _ => none
  | .acceptorWrite q frames kernel =>
    match d.acceptor with
    | .serving c =>
      let s := c.write q frames kernel
      match s.left with
      | none => some { d with acceptor := .gone }
      | some _ => some { d with acceptor := .serving s.conn, toClient := d.toClient ++ s.wrote }
    | _ => none
  | .acceptorLeaves => some { d with acceptor := .gone }
  | .replace e r =>
    match d.acceptor with
    | .handed m =>
      if e.replacing = 1 ∧ e.replacingConnect = m ∧ e.opening = none then
        let s := e.doReplace Frame.chunks r
        match s.left with
        | none => some { d with acceptor := .gone }
        | some _ => some { d with acceptor := .serving s.conn, toClient := d.toClient ++ s.wrote }
      else none
    | _ => none

/-- A connection has dialled, whatever its `connect_seq` and `global_seq`, and the other side has
accepted the socket. -/
inductive Starts : Dialogue → Prop
  | dialled (c : Conn Chunk) (inp : Input Chunk) (fd fd' : Fd) (hs : c.state = .connecting)
      (hserver : c.policy.server = false) (hout : c.outcomingBl = []) (hsd : inp.newSd = some fd) :
    Starts { client := some (c.dial inp).conn, acceptor := .serving (Node.accepted fd').conn }

end Dialogue

end AsyncMessenger
