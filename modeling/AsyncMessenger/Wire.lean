import AsyncMessenger.Process
import AsyncMessenger.ReadUntil

/-!
# Frames on the wire

`write_message`, `handle_write` and `_send_keepalive_or_ack` append frames to the output of a
connection: a tag, and what belongs to it. On the other side `do_process` reads them, one
`read_until` after the other, and may be interrupted anywhere.

## The reader

A `Reader` is a connection in the open states together with what it reads from: a pass makes the
`read_until` calls of its state, decodes what they deliver, and goes on as `Conn.processOpen` says.
The data section of a message is read into buffers that `allocate_msg_data` cuts at a page boundary.
It also has the buffers that are still to be filled and the times of the last keepalive and of the
last answer. The frames read so far are a history that no pass looks at.

`doProcess` makes passes until one leaves the state as it is or ends the call, within a given number
of rounds; if that is enough, more rounds change nothing (`doProcess_add`). `serve` makes one call
after the other.
-/

namespace AsyncMessenger

/-- `msgr_timespec`, and the `utime_t` made from it. -/
structure Timespec where
  sec : ℕ := 0
  nsec : ℕ := 0
  deriving DecidableEq, Repr

namespace Timespec

def layout : List ℕ := [4, 4]

def fields (t : Timespec) : List ℕ := [t.sec, t.nsec]

def bytes (t : Timespec) : Bytes := LittleEndian.encodeFields layout t.fields

def ofBytes (bs : Bytes) : Timespec :=
  match LittleEndian.decodeFields layout bs with
  | [sec, nsec] => { sec, nsec }
  | _ => {}

theorem ofBytes_bytes {t : Timespec} (hfit : LittleEndian.Fits layout t.fields) :
    ofBytes t.bytes = t := by
  rw [ofBytes, bytes, LittleEndian.decodeFields_encodeFields hfit]
  rfl

end Timespec

/-! ## Writing -/

/-- `write_message`; `blist` are the sections of the message. -/
def writeMessage (header : MsgHeader) (footer : MsgFooter) (blist : Bytes) : Bytes :=
  LittleEndian.encode 1 Tag.msg ++ (header.bytes ++ (blist ++ footer.bytes))

/-- The ACK frame of `handle_write`. -/
def writeAck (inSeq : ℕ) : Bytes := LittleEndian.encode 1 Tag.ack ++ LittleEndian.encode 8 inSeq

/-- `_send_keepalive_or_ack`. -/
def sendKeepaliveOrAck (ack : Bool) (t : Timespec) : Bytes :=
  LittleEndian.encode 1 (if ack then Tag.keepalive2Ack else Tag.keepalive2) ++ t.bytes

/-- A frame of an open session, as it is written and as it is read. -/
inductive WireFrame
  | msg (header : MsgHeader) (footer : MsgFooter) (front middle data : Bytes)
  | ack (seq : ℕ)
  | keepalive2 (t : Timespec)
  | keepalive2Ack (t : Timespec)
  deriving DecidableEq, Repr

namespace WireFrame

/-- What `_send` hands to `write_message` for an encoded message. -/
def ofMessage (m : Message) : WireFrame := .msg m.header m.footer m.payload m.middle m.data

def bytes : WireFrame → Bytes
  | .msg header footer front middle data => writeMessage header footer (front ++ (middle ++ data))
  | .ack seq => writeAck seq
  | .keepalive2 t => sendKeepaliveOrAck false t
  | .keepalive2Ack t => sendKeepaliveOrAck true t

end WireFrame

/-! ## Reading -/

/-- `DefaultBufferAllocator::allocate_msg_data`: the lengths of the buffers; `off & (page - 1)` is
`off & ~MSGR_PAGE_MASK`. -/
def allocateMsgData (page off len : ℕ) : List ℕ :=
  let head := if off &&& (page - 1) ≠ 0 then min (page - (off &&& (page - 1))) len else 0
  (if off &&& (page - 1) ≠ 0 then [head] else []) ++ if len - head ≠ 0 then [len - head] else []

/-- What a pass meets. -/
structure Env where
  /-- What the kernel is ready to hand over, for every `read_until` call of the pass. -/
  reads : ℕ → List ℕ := fun _ ↦ []
  budgetSpent : Bool := false
  newId : ℕ := 0

/-- A connection in the open states, and what it reads. -/
structure Reader (β : Type) where
  conn : Conn β
  recv : Recv := {}
  /-- The buffers from `data_blp` on: what is left of the first, and the lengths of the others. -/
  pieces : List ℕ := []
  keepaliveAckStamp : Timespec := {}
  lastKeepaliveAck : Timespec := {}
  /-- History: the frames read so far. -/
  decoded : List WireFrame := []

namespace Reader

variable {β : Type} (K : Codec) (flags : CrcFlags) (maxPrefetch page : ℕ)

/-- What a pass of `do_process` obtains. -/
def input (s : Reader β) (env : Env) (read : Read) : Input β :=
  { read, budgetSpent := env.budgetSpent, newId := env.newId, prefetched := !s.recv.buf.isEmpty }

/-- The pass goes through the switch; `true` says that `do_process` returns at once. -/
def finish (s : Reader β) (o : Outcome β) : Option (Reader β × Bool) :=
  match o.flow with
  | .next => some ({ s with conn := o.conn }, false)
  | .ret => some ({ s with conn := o.conn }, true)
  | _ => none

/-- What a pass remembers beside the connection, when its read has delivered `bs`. -/
def record (s : Reader β) (bs : Bytes) : Reader β :=
  match s.conn.state with
  | .openKeepalive2 =>
    { s with
      keepaliveAckStamp := Timespec.ofBytes bs
      decoded := s.decoded ++ [.keepalive2 (Timespec.ofBytes bs)] }
  | .openKeepalive2Ack =>
    { s with
      lastKeepaliveAck := Timespec.ofBytes bs
      decoded := s.decoded ++ [.keepalive2Ack (Timespec.ofBytes bs)] }
  | .openTagAck => { s with decoded := s.decoded ++ [.ack (LittleEndian.decode bs)] }
  | .openMessageReadDataPrepare =>
    if s.conn.currentHeader.dataLen = 0 then s
    else { s with
      pieces := allocateMsgData page s.conn.currentHeader.dataOff s.conn.currentHeader.dataLen }
  | .openMessageDispatch =>
    { s with decoded := s.decoded ++ [.msg s.conn.currentHeader s.conn.currentFooter s.conn.front
        s.conn.middle s.conn.data] }
  | _ => s

/-- The loop of `STATE_OPEN_MESSAGE_READ_DATA`, from the buffers on, with so many bytes left; the
`read_until` calls of the pass are numbered from `n`. The missing bytes are returned as an `int`. -/
def readData (reads : ℕ → List ℕ) : ℕ → List ℕ → ℕ → Recv → Option (Bytes × List ℕ × Recv)
  | _, [], left, recv => if left = 0 then some ([], [], recv) else none
  | n, p :: ps, left, recv =>
    if left = 0 then some ([], p :: ps, recv)
    else match recv.readUntil maxPrefetch (min p left) (reads n) with
      | (.abort, _) => none
      | (.again missing, recv) => if 2 ^ 31 ≤ missing then none else some ([], p :: ps, recv)
      | (.done bs, recv) =>
        if left < p then some (bs, (p - left) :: ps, recv)
        else (readData reads (n + 1) ps (left - p) recv).map fun x ↦ (bs ++ x.1, x.2)

/-- One pass of `do_process`; `none` is a failure. -/
def pass (s : Reader β) (env : Env) : Option (Reader β × Bool) :=
  if s.conn.state = .openMessageReadData then
    (readData maxPrefetch env.reads 0 s.pieces s.conn.msgLeft s.recv).bind fun x ↦
      finish { s with pieces := x.2.1, recv := x.2.2 } (s.conn.processOpen K flags
        (s.input env (if x.1 = [] then .again else .done (.bytes x.1))))
  else match s.conn.readCall with
    | none => finish (s.record page []) (s.conn.processOpen K flags (s.input env .again))
    | some (_, len) => match s.recv.readUntil maxPrefetch len (env.reads 0) with
      | (.abort, _) => none
      | (.again missing, recv) =>
        if 2 ^ 31 ≤ missing then none
        else finish { s with recv } (s.conn.processOpen K flags (s.input env .again))
      | (.done bs, recv) =>
        finish ({ s with recv }.record page bs) (s.conn.processOpen K flags
          (({ s with recv } : Reader β).input env (.done (s.conn.chunkOf bs))))

/-- `do_process`: passes until one does not change the state, or returns. -/
def doProcess : ℕ → (ℕ → Env) → Reader β → Option (Reader β)
  | 0, _, _ => none
  | fuel + 1, env, s =>
    (s.pass K flags maxPrefetch page (env 0)).bind fun x ↦
      if x.2 ∨ x.1.conn.state = s.conn.state then some x.1
      else doProcess fuel (fun n ↦ env (n + 1)) x.1

/-- A call of `do_process`, by the timer or because the socket is readable. -/
structure Call where
  timer : Bool
  env : ℕ → Env

/-- The timer is no longer set when its callback runs. -/
def wake (s : Reader β) (timer : Bool) : Reader β :=
  if timer then { s with conn := { s.conn with evProcess := false } } else s

/-- Calls of `do_process`, one after the other. -/
def serve (fuel : ℕ) : List Call → Reader β → Option (Reader β)
  | [], s => some s
  | c :: cs, s => (doProcess K flags maxPrefetch page fuel c.env (s.wake c.timer)).bind
      (serve fuel cs)

end Reader

end AsyncMessenger
