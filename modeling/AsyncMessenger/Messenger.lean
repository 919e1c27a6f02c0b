import AsyncMessenger.Ended

/-!
# The messenger and its connections

`AsyncMessenger` knows a connection under the address of its peer, in `conns`, or as one that is still
being accepted, in `accepting_conns`. Connections meet there: `handle_connect_msg` looks up the
connection registered for the address its peer has announced, and hands its socket over to it, wakes it
up, or takes its place.

A messenger is a number of connections, each a `Node` with its own threads. A step is one of
`get_connection`, `add_accept`, and the steps of the connections; a pass of a connection finds the
registered connection and the messenger's counter as they are, and what it does to the outside is
carried out under the same hold of the messenger's lock. `handle_replace` stops its timer and takes the
lock of its connection in two steps.

Addresses are values of any type. The address of an accepted connection is a default value until the
peer announces one.
-/

namespace AsyncMessenger

/-- An `AsyncConnection`, as the messenger knows it. -/
structure Member (α β : Type) where
  node : Node β := {}
  peerAddr : α
  /-- `handle_replace` has stopped its timer and has not got the lock yet. -/
  inReplace : Bool := false

/-- `AsyncMessenger`. -/
structure Messenger (α β : Type) where
  /-- The connections created so far. -/
  count : ℕ := 0
  member : ℕ → Member α β
  conns : α → Option ℕ := fun _ ↦ none
  /-- `accepting_conns`. -/
  accepting : ℕ → Bool := fun _ ↦ false
  /-- `global_seq`. -/
  gseq : ℕ := 0

/-- The steps of a messenger. -/
inductive Action (α β : Type)
  /-- `get_connection`; `policy` is the policy for the type of the peer. -/
  | getConnection (a : α) (policy : Policy)
  | addAccept (fd : Fd)
  /-- A step of a connection; `a` is the address its peer announces, if the step reads it. -/
  | run (i : ℕ) (a : α) (e : Event β)
  /-- `handle_replace` stops its timer. -/
  | replaceTimer (i : ℕ)
  /-- `handle_replace` has the lock. -/
  | handleReplace (i : ℕ) (r : ReplaceInput)

/-- The connection whose step it is. -/
def Action.subject {α β : Type} : Action α β → Option ℕ
  | .run i _ _ => some i
  | .replaceTimer i => some i
  | .handleReplace i _ => some i
  | _ => none

namespace Event

variable {β : Type}

/-- The steps of a node that are no steps of its own here: other connections hand sockets over, and
`handle_replace` is split in two. -/
def isForeign : Event β → Bool
  | .handOver .. => true
  | .handleReplace _ => true
  | _ => false

/-- The event thread begins something. -/
def begins : Event β → Bool
  | .process _ => true
  | .handleWrite _ => true
  | .cStop => true
  | _ => false

end Event

namespace Node

variable {β : Type}

/-- The pass has read the address of the peer. -/
def learns (n n' : Node β) : Bool :=
  n.conn.state == .acceptingWaitBannerAddr && n'.conn.state == .acceptingWaitConnectMsg

/-- `handle_replace`, once it has the lock. -/
def replace (enc : Frame → List β) (n : Node β) (r : ReplaceInput) : Node β :=
  if n.conn.replacing = 1 then { n with conn := (n.conn.doReplace enc r).conn } else n

end Node

/-- A connection after a step of its own; `a` is the address its peer has announced. -/
def Member.after {α β : Type} (m : Member α β) (a : α) (n : Node β) : Member α β :=
  { m with node := n, peerAddr := if Node.learns m.node n then a else m.peerAddr }

/-- Another thread changes the object of a connection. -/
def Member.withConn {α β : Type} (m : Member α β) (c : Conn β) : Member α β :=
  { m with node := { m.node with conn := c } }

namespace Messenger

variable {α β : Type} [DecidableEq α]

/-- A messenger without connections. -/
def init [Inhabited α] : Messenger α β := { member := fun _ ↦ { peerAddr := default } }

/-- The connection is the one registered for its peer. -/
def registered (s : Messenger α β) (i : ℕ) : Bool := s.conns (s.member i).peerAddr == some i

/-- `_lookup_conn(peer_addr)` in `handle_connect_msg`, where a connection does not count itself. -/
def existing (s : Messenger α β) (i : ℕ) : Option ℕ :=
  (s.conns (s.member i).peerAddr).filter (· ≠ i)

/-- Change one connection. -/
def put (s : Messenger α β) (i : ℕ) (m : Member α β) : Messenger α β :=
  { s with member := Function.update s.member i m }

/-- Change the object of one connection. -/
def putConn (s : Messenger α β) (i : ℕ) (c : Conn β) : Messenger α β :=
  s.put i ((s.member i).withConn c)

/-- `_unregister_conn`. -/
def unregister (s : Messenger α β) (i : ℕ) : Messenger α β :=
  { s with
    conns := if s.registered i then Function.update s.conns (s.member i).peerAddr none else s.conns
    accepting := Function.update s.accepting i false }

/-- `_accept_conn`; it fails if another connection is registered. -/
def accept (s : Messenger α β) (i : ℕ) : Messenger α β :=
  if (s.existing i).isSome then s
  else { s with
    conns := Function.update s.conns (s.member i).peerAddr (some i)
    accepting := Function.update s.accepting i false }

/-- What a pass of connection `i` does to the messenger and to the registered connection. -/
def affect (s : Messenger α β) (i : ℕ) : Effect β → Messenger α β
  | .register => s.accept i
  | .replace c => match s.existing i with
    | some j => s.putConn j c
    | none => s
  | .keepalive => match s.existing i with
    | some j => if (s.member j).node.conn.state = .closed then s
      else s.putConn j ({ (s.member j).node.conn with keepalive := true } : Conn β).startWrite
    | none => s
  | _ => s

/-- A step has turned connection `i` into `m`: carry out its effect, and forget the connection if the
step has stopped it. -/
def settle (s : Messenger α β) (i : ℕ) (m : Member α β) (effect : Effect β) (gseq : ℕ) :
    Messenger α β :=
  if Node.closes (s.member i).node m.node then
    ((({ s with gseq } : Messenger α β).put i m).affect i effect).unregister i
  else (({ s with gseq } : Messenger α β).put i m).affect i effect

/-- `create_connect`. -/
def createConnect (s : Messenger α β) (a : α) (policy : Policy) : Messenger α β :=
  { s.put s.count { node := Node.outgoing policy, peerAddr := a } with
    count := s.count + 1
    conns := Function.update s.conns a (some s.count) }

/-- `get_connection`: the registered connection, or a new one. -/
def getConnection (s : Messenger α β) (a : α) (policy : Policy) : ℕ × Messenger α β :=
  match s.conns a with
  | some i => (i, s)
  | none => (s.count, s.createConnect a policy)

/-- `add_accept`. -/
def addAccept [Inhabited α] (s : Messenger α β) (fd : Fd) : Messenger α β :=
  { s.put s.count { node := Node.accepted fd, peerAddr := default } with
    count := s.count + 1
    accepting := Function.update s.accepting s.count true }

variable (enc : Frame → List β) (K : Codec) (flags : CrcFlags)

/-- A pass of connection `i` finds the registered connection and the messenger's counter. -/
def fillInput (s : Messenger α β) (i : ℕ) (inp : Input β) : Input β :=
  { inp with existing := (s.existing i).map fun j ↦ (s.member j).node.conn, gseq := s.gseq }

/-- What a step of connection `i` meets. -/
def fill (s : Messenger α β) (i : ℕ) : Event β → Event β
  | .pass inp => .pass (s.fillInput i inp)
  | e => e

/-- A step of connection `i`. -/
def run (s : Messenger α β) (i : ℕ) (a : α) (e : Event β) : Option (Messenger α β) :=
  if s.count ≤ i ∨ e.isForeign ∨ ((s.member i).inReplace ∧ e.begins) then none
  else ((s.member i).node.step enc K flags (s.fill i e)).map fun res ↦
    s.settle i ((s.member i).after a res.node) res.effect (res.gseq.getD s.gseq)

/-- `handle_replace` stops its timer. -/
def replaceTimer (s : Messenger α β) (i : ℕ) : Option (Messenger α β) :=
  if s.count ≤ i ∨ (s.member i).node.crashed ∨ (s.member i).inReplace ∨
      (s.member i).node.loc ≠ .idle ∨ (s.member i).node.conn.evReplace = false then none
  else some (s.put i
    { (s.member i).withConn { (s.member i).node.conn with evReplace := false } with
      inReplace := true })

/-- `handle_replace` gets the lock. -/
def handleReplace (s : Messenger α β) (i : ℕ) (r : ReplaceInput) : Option (Messenger α β) :=
  if s.count ≤ i ∨ (s.member i).inReplace = false then none
  else some (s.settle i
    { s.member i with node := (s.member i).node.replace enc r, inReplace := false } .none s.gseq)

/-- One step of a messenger. -/
def step [Inhabited α] (s : Messenger α β) : Action α β → Option (Messenger α β)
  | .getConnection a policy => some (s.getConnection a policy).2
  | .addAccept fd => some (s.addAccept fd)
  | .run i a e => s.run enc K flags i a e
  | .replaceTimer i => s.replaceTimer i
  | .handleReplace i r => s.handleReplace enc i r

/-- Numbers as addresses, the frames themselves as output units, the trivial codec, both checksums. -/
abbrev frameStep : Messenger ℕ Frame → Action ℕ Frame → Option (Messenger ℕ Frame) :=
  step (fun f ↦ [f]) Codec.trivial ⟨true, true⟩

/-- A socket is accepted from the peer with address 7, which sends `connect`; the policy for it is that
of a lossless peer. Then `rest` happens. -/
def acceptPeer (connect : MsgConnect) (rest : List (Event Frame)) : List (Action ℕ Frame) :=
  .addAccept ⟨0, .acc⟩ ::
    ((Node.acceptRun connect (Policy.losslessPeer 0 0)).take 5 ++ rest).map (Action.run 0 7)

/-- What is left of an accept after the registration: the dispatchers are notified, the reply is sent, and
the session opens. -/
def answer : List (Event Frame) := [.pass {}, .pass { kernel := some 1 }, .pass {}]

end Messenger

end AsyncMessenger
