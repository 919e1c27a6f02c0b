import AsyncMessenger.Handshake

/-!
# The passes of `do_process`

`processOpen` is the switch of `do_process` for the states in which a session is open: the tag, the
keepalive and ACK frames, and the thirteen states of reading a message. `pass` is one round of the
loop, with the cleanup at its label `fail`. What happens after that label, and in
`STATE_OPEN_TAG_CLOSE`, depends on the other threads and is left to the caller.

The bytes of a message are read in the order front, middle, data; the data section may arrive over
several passes. `readCall` says which `read_until` call a pass begins with.
-/

namespace AsyncMessenger

namespace Conn

variable {β : Type} (K : Codec) (flags : CrcFlags)

/-- `STATE_OPEN`: the state a tag leads to. -/
def stateOfTag (t : ℕ) : Option State :=
  if t = Tag.keepalive2 then some .openKeepalive2
  else if t = Tag.keepalive2Ack then some .openKeepalive2Ack
  else if t = Tag.ack then some .openTagAck
  else if t = Tag.msg then some .openMessageHeader
  else if t = Tag.close then some .openTagClose
  else none

/-- `STATE_OPEN_MESSAGE_DISPATCH`. A message whose number is not above `in_seq` is dropped; any
other one sets `in_seq`, also when numbers were skipped. -/
def dispatchMessage (c : Conn β) (inp : Input β) : Outcome β :=
  match Message.decodeMessage K flags inp.newId c.currentHeader c.currentFooter c.front c.middle
      c.data with
  | none => c.failed inp.gseq
  | some m =>
    let c : Conn β := { c with state := .opened }
    if m.getSeq ≤ c.inSeq then { conn := c, gseq := inp.gseq, effect := .discard m }
    else
      let c : Conn β := { c with inSeq := m.getSeq, delivered := c.delivered ++ [m] }
      let c := if c.inSeqAcked < c.inSeq then c.startWrite else c
      if inp.budgetSpent then
        { conn := if inp.prefetched then { c with evProcess := true } else c
          flow := .ret
          gseq := inp.gseq
          effect := .deliver m }
      else { conn := c, gseq := inp.gseq, effect := .deliver m }

/-- `STATE_OPEN_MESSAGE_HEADER`: a good header resets the state of the message being read. -/
def gotHeader (c : Conn β) (h : MsgHeader) (gseq : ℕ) : Outcome β :=
  if flags.header ∧ Message.headerCrc K h ≠ h.crc then c.failed gseq
  else ({ c with front := [], middle := [], data := [], currentHeader := h } : Conn β).goto
    .openMessageThrottleMessage gseq

/-- `STATE_OPEN_MESSAGE_READ_DATA`: `bs` are the pieces that one pass completed, put together. -/
def gotData (c : Conn β) (bs : Bytes) (gseq : ℕ) : Outcome β :=
  ({ c with data := c.data ++ bs, msgLeft := c.msgLeft - bs.length } : Conn β).goto
    (if c.msgLeft - bs.length = 0 then .openMessageReadFooter else .openMessageReadData) gseq

/-- `STATE_OPEN_MESSAGE_READ_FOOTER`: an aborted message fails. -/
def gotFooter (c : Conn β) (f : MsgFooter) (gseq : ℕ) : Outcome β :=
  if f.flags &&& MsgFooter.complete = 0 then ({ c with currentFooter := f } : Conn β).failed gseq
  else ({ c with currentFooter := f } : Conn β).goto .openMessageThrottleDispatchSize gseq

/-- The switch of `do_process`, for the states of an open session. -/
def processOpen (c : Conn β) (inp : Input β) : Outcome β :=
  match c.state with
  | .opened =>
    c.onRead inp fun
      | .tag t => match stateOfTag t with
        | some s => c.goto s inp.gseq
        | none => c.failed inp.gseq
      | _ => c.failed inp.gseq
  | .openKeepalive2 =>
    c.onRead inp fun _ ↦
      ({ c with keepaliveAck := true } : Conn β).startWrite.goto .opened inp.gseq
  | .openKeepalive2Ack => c.onRead inp fun _ ↦ c.goto .opened inp.gseq
  | .openTagAck =>
    c.onRead inp fun
      | .seq n => ({ c with q := c.q.handleAck n } : Conn β).goto .opened inp.gseq
      | _ => c.failed inp.gseq
  | .openMessageHeader =>
    c.onRead inp fun
      | .header h => c.gotHeader K flags h inp.gseq
      | _ => c.failed inp.gseq
  | .openMessageThrottleMessage =>
    { c.goto .openMessageThrottleBytes inp.gseq with
      effect := if c.policy.throttlerMessages then .throttleMessage else .none }
  | .openMessageThrottleBytes =>
    { c.goto .openMessageReadFront inp.gseq with
      effect := if c.currentHeader.messageSize ≠ 0 ∧ c.policy.throttlerBytes then
          .throttleBytes c.currentHeader.messageSize
        else .none }
  | .openMessageReadFront =>
    if c.currentHeader.frontLen = 0 then c.goto .openMessageReadMiddle inp.gseq
    else c.onRead inp fun
      | .bytes bs => ({ c with front := bs } : Conn β).goto .openMessageReadMiddle inp.gseq
      | _ => c.failed inp.gseq
  | .openMessageReadMiddle =>
    if c.currentHeader.middleLen = 0 then c.goto .openMessageReadDataPrepare inp.gseq
    else c.onRead inp fun
      | .bytes bs => ({ c with middle := bs } : Conn β).goto .openMessageReadDataPrepare inp.gseq
      | _ => c.failed inp.gseq
  | .openMessageReadDataPrepare =>
    ({ c with msgLeft := c.currentHeader.dataLen } : Conn β).goto .openMessageReadData inp.gseq
  | .openMessageReadData =>
    if c.msgLeft = 0 then c.goto .openMessageReadFooter inp.gseq
    else c.onRead inp fun
      | .bytes bs => c.gotData bs inp.gseq
      | _ => c.failed inp.gseq
  | .openMessageReadFooter =>
    c.onRead inp fun
      | .footer f => c.gotFooter f inp.gseq
      | _ => c.failed inp.gseq
  | .openMessageThrottleDispatchSize => c.goto .openMessageDispatch inp.gseq
  | .openMessageDispatch => c.dispatchMessage K flags inp
  | _ => { conn := c, flow := .close, gseq := inp.gseq }

variable (enc : Frame → List β)

/-- The switch of `do_process`. -/
def processState (c : Conn β) (inp : Input β) : Outcome β :=
  if c.state.isOpen then c.processOpen K flags inp
  else match c.state with
    | .standby => { conn := c, gseq := inp.gseq }
    | .closed => { conn := c, gseq := inp.gseq }
    | .wait => ({ c with state := .connectingSendConnectMsg } : Conn β).failed inp.gseq
    | _ => c.processConnection enc inp

/-- One round of the loop of `do_process`: the switch and, at the label `fail`, the cleanup of a
connection attempt. -/
def pass (c : Conn β) (inp : Input β) : Outcome β :=
  let o := c.processState K flags enc inp
  if o.flow = .fail ∧ State.connectingSendConnectMsg.code ≤ c.state.code ∧
      c.state.code ≤ State.connectingReady.code then
    { o with conn := { o.conn with authorizer := none, gotBadAuth := false } }
  else o

/-! ## The reads

A pass begins with at most one read, and a read that is not complete leaves the connection in its
state. What a read means depends on the state only, not on the bytes that come. -/

/-- Where a `read_until` puts its bytes. -/
inductive Target
  /-- The variable `tag` on the stack. -/
  | tag
  | stateBuffer
  /-- A buffer allocated for a section of the message. -/
  | section
  deriving DecidableEq, Repr

/-- The `read_until` call a pass makes, if it makes one. -/
def readCall (c : Conn β) : Option (Target × ℕ) :=
  match c.state with
  | .opened => some (.tag, 1)
  | .openKeepalive2 => some (.stateBuffer, sizeofTimespec)
  | .openKeepalive2Ack => some (.stateBuffer, sizeofTimespec)
  | .openTagAck => some (.stateBuffer, 8)
  | .openMessageHeader => some (.stateBuffer, MsgHeader.layout.sum)
  | .openMessageReadFront =>
    if c.currentHeader.frontLen = 0 then none else some (.section, c.currentHeader.frontLen)
  | .openMessageReadMiddle =>
    if c.currentHeader.middleLen = 0 then none else some (.section, c.currentHeader.middleLen)
  | .openMessageReadData => if c.msgLeft = 0 then none else some (.section, c.msgLeft)
  | .openMessageReadFooter => some (.stateBuffer, MsgFooter.layout.sum)
  | .connectingWaitBanner => some (.stateBuffer, AsyncMessenger.banner.length)
  | .connectingWaitIdentifyPeer => some (.stateBuffer, sizeofEntityAddr * 2)
  | .connectingWaitConnectReply => some (.stateBuffer, MsgConnectReply.layout.sum)
  | .connectingWaitConnectReplyAuth =>
    if c.connectReply.authorizerLen = 0 then none
    else if stateBufferSize < c.connectReply.authorizerLen then none
    else some (.stateBuffer, c.connectReply.authorizerLen)
  | .connectingWaitAckSeq => some (.stateBuffer, 8)
  | .acceptingWaitBannerAddr =>
    some (.stateBuffer, AsyncMessenger.banner.length + sizeofEntityAddr)
  | .acceptingWaitConnectMsg => some (.stateBuffer, MsgConnect.layout.sum)
  | .acceptingWaitConnectMsgAuth =>
    if c.opening.isSome ∨ c.connectMsg.authorizerLen = 0 then none
    else some (.stateBuffer, c.connectMsg.authorizerLen)
  | .acceptingWaitSeq => some (.stateBuffer, 8)
  | _ => none

/-- What the bytes of a completed read mean to the state that asked for them. -/
def chunkOf (c : Conn β) (bs : Bytes) : Chunk :=
  match c.state with
  | .opened => .tag (LittleEndian.decode bs)
  | .openKeepalive2 => .timespec
  | .openKeepalive2Ack => .timespec
  | .openTagAck => .seq (LittleEndian.decode bs)
  | .openMessageHeader => .header (MsgHeader.ofBytes bs)
  | .openMessageReadFooter => .footer (MsgFooter.ofBytes bs)
  | .connectingWaitBanner => .banner bs
  | .connectingWaitIdentifyPeer => .addrs
  | .connectingWaitConnectReply => .reply (MsgConnectReply.ofBytes bs)
  | .connectingWaitAckSeq => .seq (LittleEndian.decode bs)
  | .acceptingWaitBannerAddr => .bannerAddr (bs.take AsyncMessenger.banner.length)
  | .acceptingWaitConnectMsg => .connect (MsgConnect.ofBytes bs)
  | .acceptingWaitSeq => .seq (LittleEndian.decode bs)
  | _ => .bytes bs

/-- `read_until` on the bytes that have arrived: the outcome, and the bytes still unread. The data
section is consumed as it comes; every other read waits until it is complete. -/
def readBytes (c : Conn β) (arrived : Bytes) : Read × Bytes :=
  match c.readCall with
  | none => (.again, arrived)
  | some (_, len) =>
    if c.state = .openMessageReadData then
      if arrived = [] then (.again, [])
      else (.done (.bytes (arrived.take len)), arrived.drop len)
    else if arrived.length < len then (.again, arrived)
    else (.done (c.chunkOf (arrived.take len)), arrived.drop len)

end Conn

end AsyncMessenger
