import AsyncMessenger.Lib.LittleEndian

/-!
# The wire protocol and the connection states

The constants and packed structures of `include/msgr/msgr.h`, the state enumeration of
`AsyncConnection`, and `Messenger::Policy`. Integer fields of the packed structures are natural
numbers; their widths appear in the byte layouts, where writing truncates.

A packed structure has a `layout`, the widths of its fields in their order, and the list of its
`fields`; `bytes` and `ofBytes` are then writing and reading such a list
(`LittleEndian.encodeFields`), and that a structure is read back as it was written is one lemma
of the library.
-/

namespace AsyncMessenger

/-- Byte strings. -/
abbrev Bytes := List UInt8

/-! ## States

The enumerators are numbered as in the source, since the range tests of the source (`fault` among
them) depend on it. -/

/-- `AsyncConnection::state`, in the order of the source enumeration: the code compares states with
`<` and `<=`. `opened` is `STATE_OPEN`. -/
inductive State
  | none
  | opened
  | openKeepalive2
  | openKeepalive2Ack
  | openTagAck
  | openMessageHeader
  | openMessageThrottleMessage
  | openMessageThrottleBytes
  | openMessageReadFront
  | openMessageReadMiddle
  | openMessageReadDataPrepare
  | openMessageReadData
  | openMessageReadFooter
  | openMessageThrottleDispatchSize
  | openMessageDispatch
  | openTagClose
  | waitSend
  | connecting
  | connectingWaitBanner
  | connectingWaitIdentifyPeer
  | connectingSendConnectMsg
  | connectingWaitConnectReply
  | connectingWaitConnectReplyAuth
  | connectingWaitAckSeq
  | connectingReady
  | accepting
  | acceptingWaitBannerAddr
  | acceptingWaitConnectMsg
  | acceptingWaitConnectMsgAuth
  | acceptingWaitSeq
  | acceptingReady
  | standby
  | closed
  | wait
  deriving DecidableEq, Repr

namespace State

/-- The enumerator's value. -/
def code (s : State) : ℕ := s.ctorIdx

/-- `state >= STATE_OPEN && state <= STATE_OPEN_TAG_CLOSE`. -/
def isOpen (s : State) : Bool := opened.code ≤ s.code && s.code ≤ openTagClose.code

/-- `state >= STATE_CONNECTING && state < STATE_CONNECTING_READY`. -/
def isConnecting (s : State) : Bool := connecting.code ≤ s.code && s.code < connectingReady.code

/-- `state >= STATE_ACCEPTING && state < STATE_ACCEPTING_WAIT_SEQ`. -/
def isAccepting (s : State) : Bool := accepting.code ≤ s.code && s.code < acceptingWaitSeq.code

end State

/-! ## Constants -/

namespace Tag

def ready : ℕ := 1
def resetSession : ℕ := 2
def wait : ℕ := 3
def retrySession : ℕ := 4
def retryGlobal : ℕ := 5
def close : ℕ := 6
def msg : ℕ := 7
def ack : ℕ := 8
def badProtoVer : ℕ := 10
def badAuthorizer : ℕ := 11
def features : ℕ := 12
def seq : ℕ := 13
def keepalive2 : ℕ := 14
def keepalive2Ack : ℕ := 15

end Tag

/-- `STATE_BUFFER_SIZE`. -/
def stateBufferSize : ℕ := 4096

/-- `MSGR_MSG_PRIO_HIGHEST`. -/
def prioHighest : ℕ := 255

/-- `MSGR_MSG_CONNECT_LOSSY`. -/
def connectLossy : ℕ := 1

/-- `MSGR_FEATURE_MSG_AUTH`. -/
def featureMsgAuth : ℕ := 2

/-- `MSGR_BANNER`, the text `msgr v001`. -/
def banner : Bytes := [109, 115, 103, 114, 32, 118, 48, 48, 49]

/-- `sizeof(entity_addr_t)`: type, nonce and a `sockaddr_storage`. -/
def sizeofEntityAddr : ℕ := 4 + 4 + 128

/-- `sizeof(msgr_timespec)`. -/
def sizeofTimespec : ℕ := 4 + 4

/-- `msgr_sanitize_features`. -/
def sanitizeFeatures (f : ℕ) : ℕ := f

/-- The bits of `required` that `offered` lacks: `required & ~(uint64_t)offered`. -/
def featMissing (required offered : ℕ) : ℕ := required &&& (offered ^^^ (2 ^ 64 - 1))

/-! ## Packed structures -/

/-- `msgr_msg_connect`. -/
structure MsgConnect where
  features : ℕ := 0
  hostType : ℕ := 0
  globalSeq : ℕ := 0
  connectSeq : ℕ := 0
  protocolVersion : ℕ := 0
  authorizerProtocol : ℕ := 0
  authorizerLen : ℕ := 0
  flags : ℕ := 0
  deriving DecidableEq, Repr

/-- `msgr_msg_connect_reply`. -/
structure MsgConnectReply where
  tag : ℕ := 0
  features : ℕ := 0
  globalSeq : ℕ := 0
  connectSeq : ℕ := 0
  protocolVersion : ℕ := 0
  authorizerLen : ℕ := 0
  flags : ℕ := 0
  deriving DecidableEq, Repr

/-- `msgr_msg_header`; `srcType` and `srcNum` are the `msgr_entity_name` inside it. -/
structure MsgHeader where
  seq : ℕ := 0
  tid : ℕ := 0
  type : ℕ := 0
  priority : ℕ := 0
  version : ℕ := 0
  frontLen : ℕ := 0
  middleLen : ℕ := 0
  dataLen : ℕ := 0
  dataOff : ℕ := 0
  srcType : ℕ := 0
  srcNum : ℕ := 0
  compatVersion : ℕ := 0
  reserved : ℕ := 0
  crc : ℕ := 0
  deriving DecidableEq, Repr

/-- `msgr_msg_footer`. -/
structure MsgFooter where
  frontCrc : ℕ := 0
  middleCrc : ℕ := 0
  dataCrc : ℕ := 0
  sig : ℕ := 0
  flags : ℕ := 0
  deriving DecidableEq, Repr

namespace MsgConnect

def layout : List ℕ := [8, 4, 4, 4, 4, 4, 4, 1]

def fields (c : MsgConnect) : List ℕ :=
  [c.features, c.hostType, c.globalSeq, c.connectSeq, c.protocolVersion, c.authorizerProtocol,
    c.authorizerLen, c.flags]

def bytes (c : MsgConnect) : Bytes := LittleEndian.encodeFields layout c.fields

def ofBytes (bs : Bytes) : MsgConnect :=
  match LittleEndian.decodeFields layout bs with
  | [features, hostType, globalSeq, connectSeq, protocolVersion, authorizerProtocol,
      authorizerLen, flags] =>
    { features, hostType, globalSeq, connectSeq, protocolVersion, authorizerProtocol,
      authorizerLen, flags }
  | _ => {}

end MsgConnect

namespace MsgConnectReply

def layout : List ℕ := [1, 8, 4, 4, 4, 4, 1]

def fields (r : MsgConnectReply) : List ℕ :=
  [r.tag, r.features, r.globalSeq, r.connectSeq, r.protocolVersion, r.authorizerLen, r.flags]

def bytes (r : MsgConnectReply) : Bytes := LittleEndian.encodeFields layout r.fields

def ofBytes (bs : Bytes) : MsgConnectReply :=
  match LittleEndian.decodeFields layout bs with
  | [tag, features, globalSeq, connectSeq, protocolVersion, authorizerLen, flags] =>
    { tag, features, globalSeq, connectSeq, protocolVersion, authorizerLen, flags }
  | _ => {}

end MsgConnectReply

namespace MsgHeader

def layout : List ℕ := [8, 8, 2, 2, 2, 4, 4, 4, 2, 1, 8, 2, 2, 4]

def fields (h : MsgHeader) : List ℕ :=
  [h.seq, h.tid, h.type, h.priority, h.version, h.frontLen, h.middleLen, h.dataLen, h.dataOff,
    h.srcType, h.srcNum, h.compatVersion, h.reserved, h.crc]

def bytes (h : MsgHeader) : Bytes := LittleEndian.encodeFields layout h.fields

def ofBytes (bs : Bytes) : MsgHeader :=
  match LittleEndian.decodeFields layout bs with
  | [seq, tid, type, priority, version, frontLen, middleLen, dataLen, dataOff, srcType, srcNum,
      compatVersion, reserved, crc] =>
    { seq, tid, type, priority, version, frontLen, middleLen, dataLen, dataOff, srcType, srcNum,
      compatVersion, reserved, crc }
  | _ => {}

/-- `current_header.front_len + current_header.middle_len + current_header.data_len`. The three
fields are 32 bits wide and so is their sum; only the result is widened to 64 bits. -/
def messageSize (h : MsgHeader) : ℕ := (h.frontLen + h.middleLen + h.dataLen) % 2 ^ 32

/-- The sequence number is the first field of the header, eight bytes wide. -/
theorem ofBytes_bytes_seq (h : MsgHeader) : (ofBytes h.bytes).seq = h.seq % 2 ^ 64 := by
  have hwidth : (LittleEndian.encode 8 h.seq).length = 8 := LittleEndian.length_encode 8 h.seq
  have hdecode : LittleEndian.decode (h.bytes.take 8) = h.seq % 256 ^ 8 := by
    rw [bytes, layout, fields, LittleEndian.encodeFields, List.take_left' hwidth,
      LittleEndian.decode_encode]
  exact hdecode

theorem ofBytes_bytes {h : MsgHeader} (hfit : LittleEndian.Fits layout h.fields) :
    ofBytes h.bytes = h := by
  rw [ofBytes, bytes, LittleEndian.decodeFields_encodeFields hfit]
  rfl

end MsgHeader

namespace MsgFooter

def layout : List ℕ := [4, 4, 4, 8, 1]

def fields (f : MsgFooter) : List ℕ := [f.frontCrc, f.middleCrc, f.dataCrc, f.sig, f.flags]

def bytes (f : MsgFooter) : Bytes := LittleEndian.encodeFields layout f.fields

def ofBytes (bs : Bytes) : MsgFooter :=
  match LittleEndian.decodeFields layout bs with
  | [frontCrc, middleCrc, dataCrc, sig, flags] => { frontCrc, middleCrc, dataCrc, sig, flags }
  | _ => {}

/-- `MSGR_MSG_FOOTER_COMPLETE`. -/
def complete : ℕ := 1

/-- `MSGR_MSG_FOOTER_NOCRC`. -/
def noCrc : ℕ := 2

theorem ofBytes_bytes {f : MsgFooter} (hfit : LittleEndian.Fits layout f.fields) :
    ofBytes f.bytes = f := by
  rw [ofBytes, bytes, LittleEndian.decodeFields_encodeFields hfit]
  rfl

end MsgFooter

/-! ## Policies -/

/-- `Messenger::Policy`. A throttle pointer is represented by whether it is set. -/
structure Policy where
  lossy : Bool := true
  server : Bool := false
  standby : Bool := false
  resetcheck : Bool := true
  throttlerBytes : Bool := false
  throttlerMessages : Bool := false
  featuresSupported : ℕ := featureMsgAuth
  featuresRequired : ℕ := 0
  deriving DecidableEq, Repr

namespace Policy

def statefulServer (sup req : ℕ) : Policy :=
  { lossy := false, server := true, standby := true, resetcheck := true,
    featuresSupported := sup ||| featureMsgAuth, featuresRequired := req }

def losslessPeer (sup req : ℕ) : Policy :=
  { lossy := false, server := false, standby := true, resetcheck := false,
    featuresSupported := sup ||| featureMsgAuth, featuresRequired := req }

def losslessPeerReuse (sup req : ℕ) : Policy :=
  { lossy := false, server := false, standby := true, resetcheck := true,
    featuresSupported := sup ||| featureMsgAuth, featuresRequired := req }

def losslessClient (sup req : ℕ) : Policy :=
  { lossy := false, server := false, standby := false, resetcheck := true,
    featuresSupported := sup ||| featureMsgAuth, featuresRequired := req }

def lossyClient (sup req : ℕ) : Policy :=
  { lossy := true, server := false, standby := false, resetcheck := false,
    featuresSupported := sup ||| featureMsgAuth, featuresRequired := req }

end Policy

end AsyncMessenger
