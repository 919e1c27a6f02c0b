import AsyncMessenger.Protocol

/-!
# Messages

A `Message` object: its envelope, footer and the three payload sections. The sequence number lives
in the 64-bit header field, but the accessors `get_seq` and `set_seq` pass it as an `unsigned`, so
every value that goes through them is a residue modulo `2 ^ 32`.

What a concrete message class does in `encode_payload` and `decode_payload`, which types are
registered and how a checksum is computed are left to a `Codec`. The tests of `decode_message` stand
in the order of the source, the checksums first.
-/

namespace AsyncMessenger

/-- A message object. `id` stands for its address: two messages with the same `id` are one
object. -/
structure Message where
  id : ℕ := 0
  header : MsgHeader := {}
  footer : MsgFooter := {}
  payload : Bytes := []
  middle : Bytes := []
  data : Bytes := []
  deriving DecidableEq, Repr

namespace Message

/-- `Message::get_seq`, an `unsigned`. -/
def getSeq (m : Message) : ℕ := m.header.seq % 2 ^ 32

/-- `Message::set_seq`, whose argument is an `unsigned`. -/
def setSeq (m : Message) (s : ℕ) : Message :=
  { m with header := { m.header with seq := s % 2 ^ 32 } }

/-- `Message::get_priority`. -/
def getPriority (m : Message) : ℕ := m.header.priority

/-- The bytes of the three sections. -/
def payloadSize (m : Message) : ℕ := m.payload.length + m.middle.length + m.data.length

theorem getSeq_setSeq (m : Message) (s : ℕ) : (m.setSeq s).getSeq = s % 2 ^ 32 :=
  Nat.mod_mod s (2 ^ 32)

@[simp] theorem setSeq_id (m : Message) (s : ℕ) : (m.setSeq s).id = m.id := rfl

@[simp] theorem setSeq_getPriority (m : Message) (s : ℕ) :
    (m.setSeq s).getPriority = m.getPriority := rfl

/-- Numbering a message with the number it already has changes nothing. -/
theorem setSeq_eq_self {m : Message} {s : ℕ} (hs : s < 2 ^ 32) (h : m.header.seq = s) :
    m.setSeq s = m := by
  rw [setSeq, Nat.mod_eq_of_lt hs, ← h]

end Message

/-- What the code calls out to: the checksum, the payload code of the message classes and the
factory registry. -/
structure Codec where
  /-- `msgr_crc32c(0, data)`. -/
  crc : Bytes → ℕ
  /-- `Message::encode_payload`, called when the payload is still empty. It fills in the sections; the
  number belongs to the connection. -/
  encodePayload : Message → ℕ → Message
  encodePayload_seq : ∀ m features, (encodePayload m features).header.seq = m.header.seq
  /-- `MessageFactoryRegistry::make_message`: the header version of a fresh object, if the type is
  registered. -/
  makeMessage : ℕ → Option ℕ
  /-- `Message::decode_payload` throws no `buffer::error`. -/
  decodePayload : Message → Bool

/-- A codec with one message type, an empty payload encoder and the zero checksum. -/
def Codec.trivial : Codec where
  crc _ := 0
  encodePayload m _ := m
  encodePayload_seq _ _ := rfl
  makeMessage _ := some 1
  decodePayload _ := true

/-- `MSG_CRC_DATA` and `MSG_CRC_HEADER`. -/
structure CrcFlags where
  data : Bool
  header : Bool

namespace Message

variable (K : Codec) (flags : CrcFlags)

/-- `Message::calc_header_crc`: the checksum covers the header up to its `crc` field. -/
def headerCrc (h : MsgHeader) : ℕ := K.crc (h.bytes.take 49)

/-- `Message::encode`. -/
def encode (features : ℕ) (m : Message) : Message :=
  let m := if m.payload = [] then
      let m := K.encodePayload m features
      if m.header.compatVersion = 0 then
        { m with header := { m.header with compatVersion := m.header.version } }
      else m
    else m
  let m := if flags.header then
      { m with footer := { m.footer with
          frontCrc := K.crc m.payload, middleCrc := K.crc m.middle } }
    else m
  let m := { m with header := { m.header with
      frontLen := m.payload.length, middleLen := m.middle.length, dataLen := m.data.length } }
  let m := if flags.header then
      { m with header := { m.header with crc := headerCrc K m.header } }
    else m
  let m := { m with footer := { m.footer with flags := MsgFooter.complete } }
  if flags.data then { m with footer := { m.footer with dataCrc := K.crc m.data } }
  else { m with footer := { m.footer with flags := m.footer.flags ||| MsgFooter.noCrc } }

/-- `decode_message`: the checksums, the factory, the compatibility check and the payload decoder,
in this order; `none` is a null pointer. The new object gets the identity `id`. -/
def decodeMessage (id : ℕ) (header : MsgHeader) (footer : MsgFooter) (front middle data : Bytes) :
    Option Message :=
  if flags.header ∧ K.crc front ≠ footer.frontCrc then none
  else if flags.header ∧ K.crc middle ≠ footer.middleCrc then none
  else if flags.data ∧ footer.flags &&& MsgFooter.noCrc = 0 ∧ K.crc data ≠ footer.dataCrc then none
  else match K.makeMessage header.type with
    | none => none
    | some version =>
      if version ≠ 0 ∧ version < header.compatVersion then none
      else if K.decodePayload { id, header, payload := front, middle, data } then
        some { id, header, payload := front, middle, data }
      else none

/-- Encoding does not touch the number of a message. -/
theorem encode_seq (features : ℕ) (m : Message) :
    (encode K flags features m).header.seq = m.header.seq := by
  have hpayload := K.encodePayload_seq m features
  simp only [encode]
  split_ifs <;> first | rfl | exact hpayload

/-- A message that decodes carries the header it was decoded from. -/
theorem header_of_decodeMessage {id : ℕ} {header : MsgHeader} {footer : MsgFooter}
    {front middle data : Bytes} {m : Message}
    (h : decodeMessage K flags id header footer front middle data = some m) :
    m.header = header ∧ m.payload = front ∧ m.middle = middle ∧ m.data = data := by
  rw [decodeMessage] at h
  cases hmake : K.makeMessage header.type with
  | none => simp [hmake] at h
  | some version =>
    rw [hmake] at h
    dsimp only at h
    split_ifs at h
    rw [Option.some_inj] at h
    subst h
    exact ⟨rfl, rfl, rfl, rfl⟩

end Message

end AsyncMessenger
