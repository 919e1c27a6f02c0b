import AsyncMessenger.PassFrame
import AsyncMessenger.Wire

/-!
# What is written is read

The frames that one side writes into its stream are the frames the other side reads, however the
kernel cuts the stream, and all of them are read once it has handed over all the bytes.

## The writer and the reader

The stream is `stream flags fs`: for each frame its tag and its body, as `write_message`,
`_send_keepalive_or_ack` and `handle_write` lay them out. The reader is `do_process`, pass by pass,
with `read_until` below it, and every read may get any number of the bytes that are left, or none. A
message can be `Sendable` only to a receiver that knows its type: `decode_message` returns null for
any other, and the connection fails (`serve_unknown_type`).

## The invariant

`Owes` relates a connection that has read a part of the stream to the frames it still has to read
and to the bytes that are left: in every state of `do_process` it says which part of the current
frame has been read. `Framed` adds what the state machine keeps of that part, the buffers of the
data section among it.

A pass does one of three things (`Passed`). It waits, with the bytes that have come kept; or it
takes the next part, and `measure` has become smaller; or it has dispatched a message and leaves the
loop. One lemma for each state says so, and `passed` puts them together.

## Progress

That nothing wrong is read would also be true of a reader that reads nothing. So the module has a
second half: a call of `do_process` to which the kernel offers a byte takes one, until nothing is
left. A stream of `n` bytes has been read to its end after `n` such calls.
-/

namespace AsyncMessenger

/-- The receiver knows the message: its type is registered, its version is not too new, and its payload
can be decoded. -/
def Message.Known (K : Codec) (m : Message) : Prop :=
  ∃ version, K.makeMessage m.header.type = some version ∧
    (version = 0 ∨ m.header.compatVersion ≤ version) ∧
    ∀ id, K.decodePayload
      { id, header := m.header, payload := m.payload, middle := m.middle, data := m.data } = true

namespace WireFrame

variable {K : Codec} {flags : CrcFlags}

variable (K flags) in
/-- The frames a connection sends to a receiver that knows its messages: the fields fit into the packed
structures, and every section is shorter than `2 ^ 31`. -/
inductive Sendable : WireFrame → Prop
  | msg (m : Message) (features : ℕ)
      (hheader : LittleEndian.Fits MsgHeader.layout (m.encode K flags features).header.fields)
      (hfooter : LittleEndian.Fits MsgFooter.layout (m.encode K flags features).footer.fields)
      (hfront : (m.encode K flags features).payload.length < 2 ^ 31)
      (hmiddle : (m.encode K flags features).middle.length < 2 ^ 31)
      (hdata : (m.encode K flags features).data.length < 2 ^ 31)
      (hknown : (m.encode K flags features).Known K) :
    Sendable (ofMessage (m.encode K flags features))
  | ack (seq : ℕ) (h : seq < 2 ^ 64) : Sendable (.ack seq)
  | keepalive2 (t : Timespec) (h : LittleEndian.Fits Timespec.layout t.fields) :
    Sendable (.keepalive2 t)
  | keepalive2Ack (t : Timespec) (h : LittleEndian.Fits Timespec.layout t.fields) :
    Sendable (.keepalive2Ack t)

variable (K flags) in
/-- What the reader needs of a message. -/
structure Sound (header : MsgHeader) (footer : MsgFooter) (front middle data : Bytes) : Prop where
  readHeader : MsgHeader.ofBytes header.bytes = header
  readFooter : MsgFooter.ofBytes footer.bytes = footer
  frontLen : header.frontLen = front.length
  middleLen : header.middleLen = middle.length
  dataLen : header.dataLen = data.length
  short : front.length < 2 ^ 31 ∧ middle.length < 2 ^ 31 ∧ data.length < 2 ^ 31
  headerCrc : flags.header = true → Message.headerCrc K header = header.crc
  complete : footer.flags &&& MsgFooter.complete ≠ 0
  decodes : ∀ id, (Message.decodeMessage K flags id header footer front middle data).isSome

end WireFrame

namespace Message

variable (K : Codec) (flags : CrcFlags)

/-- The checksum of a header does not depend on its `crc` field. -/
theorem headerCrc_congr (h : MsgHeader) (crc : ℕ) : headerCrc K { h with crc } = headerCrc K h := by
  have hbytes (x : ℕ) : ({ h with crc := x } : MsgHeader).bytes.take 49 =
      LittleEndian.encodeFields [8, 8, 2, 2, 2, 4, 4, 4, 2, 1, 8, 2, 2]
        [h.seq, h.tid, h.type, h.priority, h.version, h.frontLen, h.middleLen, h.dataLen, h.dataOff,
          h.srcType, h.srcNum, h.compatVersion, h.reserved] := by
    simp only [MsgHeader.bytes, MsgHeader.layout, MsgHeader.fields, LittleEndian.encodeFields,
      List.append_nil, ← List.append_assoc]
    rw [List.take_left' (by simp [LittleEndian.length_encode])]
  rw [headerCrc, headerCrc, hbytes, ← hbytes h.crc]

/-- Header and footer agree with the sections. -/
structure Encoded (m : Message) : Prop where
  frontLen : m.header.frontLen = m.payload.length
  middleLen : m.header.middleLen = m.middle.length
  dataLen : m.header.dataLen = m.data.length
  headerCrc : flags.header = true → headerCrc K m.header = m.header.crc
  complete : m.footer.flags &&& MsgFooter.complete ≠ 0
  sectionCrcs : flags.header = true →
    m.footer.frontCrc = K.crc m.payload ∧ m.footer.middleCrc = K.crc m.middle
  dataCrc : flags.data = true → m.footer.dataCrc = K.crc m.data

theorem encoded_encode (features : ℕ) (m : Message) : Encoded K flags (m.encode K flags features) := by
  rw [encode]
  generalize (if m.payload = [] then _ else m) = m
  obtain ⟨data, header⟩ := flags
  have hcrc (crc : ℕ) : Message.headerCrc K { m.header with
      frontLen := m.payload.length, middleLen := m.middle.length, dataLen := m.data.length, crc } =
      Message.headerCrc K { m.header with
        frontLen := m.payload.length, middleLen := m.middle.length, dataLen := m.data.length } :=
    headerCrc_congr K { m.header with
      frontLen := m.payload.length, middleLen := m.middle.length, dataLen := m.data.length } crc
  cases data <;> cases header <;> constructor <;>
    simp [MsgFooter.complete, MsgFooter.noCrc, hcrc]

/-- The receiver that knows a message can decode what was encoded. -/
theorem decodes_encode {features : ℕ} {m : Message} (h : (m.encode K flags features).Known K) (id : ℕ) :
    (decodeMessage K flags id (m.encode K flags features).header (m.encode K flags features).footer
      (m.encode K flags features).payload (m.encode K flags features).middle
      (m.encode K flags features).data).isSome := by
  have hencoded := encoded_encode K flags features m
  generalize m.encode K flags features = m at h hencoded ⊢
  obtain ⟨version, hmake, hversion, hpayload⟩ := h
  rw [decodeMessage, if_neg fun hbad ↦ hbad.2 (hencoded.sectionCrcs hbad.1).1.symm,
    if_neg fun hbad ↦ hbad.2 (hencoded.sectionCrcs hbad.1).2.symm,
    if_neg fun hbad ↦ hbad.2.2 (hencoded.dataCrc hbad.1).symm, hmake]
  dsimp only
  rw [if_neg (by omega), if_pos (hpayload id)]
  rfl

end Message

namespace WireFrame

variable {K : Codec} {flags : CrcFlags}

theorem sound_of_sendable {header : MsgHeader} {footer : MsgFooter} {front middle data : Bytes}
    (h : Sendable K flags (.msg header footer front middle data)) :
    Sound K flags header footer front middle data := by
  generalize hf : WireFrame.msg header footer front middle data = f at h
  cases h with
  | msg m features hheader hfooter hfront hmiddle hdata hknown =>
    have hencoded := Message.encoded_encode K flags features m
    have hdecodes := Message.decodes_encode K flags hknown
    rw [ofMessage, msg.injEq] at hf
    obtain ⟨rfl, rfl, rfl, rfl, rfl⟩ := hf
    exact {
      readHeader := MsgHeader.ofBytes_bytes hheader
      readFooter := MsgFooter.ofBytes_bytes hfooter
      frontLen := hencoded.frontLen
      middleLen := hencoded.middleLen
      dataLen := hencoded.dataLen
      short := ⟨hfront, hmiddle, hdata⟩
      headerCrc := hencoded.headerCrc
      complete := hencoded.complete
      decodes := hdecodes }
  | _ => exact absurd hf (by simp)

end WireFrame


/-! ## What is left to read

A frame is a tag and a body, and the state entered with the tag reads the body. The unread bytes of
the current frame are given for each state; they do not depend on how the part before was cut. -/

namespace WireFrame

/-- The tag a frame begins with. -/
def tag : WireFrame → ℕ
  | msg .. => Tag.msg
  | ack _ => Tag.ack
  | keepalive2 _ => Tag.keepalive2
  | keepalive2Ack _ => Tag.keepalive2Ack

/-- What follows the tag. -/
def body : WireFrame → Bytes
  | msg header footer front middle data =>
    header.bytes ++ (front ++ (middle ++ (data ++ footer.bytes)))
  | ack seq => LittleEndian.encode 8 seq
  | keepalive2 t => t.bytes
  | keepalive2Ack t => t.bytes

/-- The state in which the rest of a frame is read. -/
def entered : WireFrame → State
  | msg .. => .openMessageHeader
  | ack _ => .openTagAck
  | keepalive2 _ => .openKeepalive2
  | keepalive2Ack _ => .openKeepalive2Ack

theorem bytes_eq (f : WireFrame) : f.bytes = LittleEndian.encode 1 f.tag ++ f.body := by
  cases f with
  | msg => simp [bytes, tag, body, writeMessage]
  | _ => rfl

theorem stateOfTag_tag (f : WireFrame) : Conn.stateOfTag f.tag = some f.entered := by
  cases f <;> rfl

theorem decode_tag (f : WireFrame) : LittleEndian.decode (LittleEndian.encode 1 f.tag) = f.tag := by
  cases f <;> rfl

/-- The bytes of several frames. -/
def stream (fs : List WireFrame) : Bytes := fs.flatMap bytes

@[simp] theorem stream_cons (f : WireFrame) (fs : List WireFrame) :
    stream (f :: fs) = f.bytes ++ stream fs := by
  rw [stream, List.flatMap_cons]
  rfl

end WireFrame

namespace Reader

variable {β : Type}

/-- The frames a connection has still to read, the current one first, and the bytes of them that it has
not read: in every state, which part of the current frame is behind it and where it is kept. -/
inductive Owes (c : Conn β) (pieces : List ℕ) : List WireFrame → Bytes → Prop
  | opened (fs : List WireFrame) (hs : c.state = .opened) : Owes c pieces fs (WireFrame.stream fs)
  | entered (f : WireFrame) (fs : List WireFrame) (hs : c.state = f.entered) :
    Owes c pieces (f :: fs) (f.body ++ WireFrame.stream fs)
  | front (h : MsgHeader) (f : MsgFooter) (front middle data : Bytes) (fs : List WireFrame)
      (hs : c.state = .openMessageThrottleMessage ∨ c.state = .openMessageThrottleBytes ∨
        c.state = .openMessageReadFront)
      (hh : c.currentHeader = h) (hfront : c.front = []) (hmiddle : c.middle = [])
      (hdata : c.data = []) :
    Owes c pieces (.msg h f front middle data :: fs)
      (front ++ (middle ++ (data ++ (f.bytes ++ WireFrame.stream fs))))
  | middle (h : MsgHeader) (f : MsgFooter) (front middle data : Bytes) (fs : List WireFrame)
      (hs : c.state = .openMessageReadMiddle) (hh : c.currentHeader = h) (hfront : c.front = front)
      (hmiddle : c.middle = []) (hdata : c.data = []) :
    Owes c pieces (.msg h f front middle data :: fs)
      (middle ++ (data ++ (f.bytes ++ WireFrame.stream fs)))
  | prepare (h : MsgHeader) (f : MsgFooter) (front middle data : Bytes) (fs : List WireFrame)
      (hs : c.state = .openMessageReadDataPrepare) (hh : c.currentHeader = h) (hfront : c.front = front)
      (hmiddle : c.middle = middle) (hdata : c.data = []) :
    Owes c pieces (.msg h f front middle data :: fs)
      (data ++ (f.bytes ++ WireFrame.stream fs))
  | data (h : MsgHeader) (f : MsgFooter) (front middle data rest : Bytes) (fs : List WireFrame)
      (hs : c.state = .openMessageReadData) (hh : c.currentHeader = h) (hfront : c.front = front)
      (hmiddle : c.middle = middle) (hdata : c.data ++ rest = data) (hleft : c.msgLeft = rest.length)
      (hpieces : rest = [] ∨ pieces.sum = rest.length ∧ ∀ p ∈ pieces, 0 < p) :
    Owes c pieces (.msg h f front middle data :: fs)
      (rest ++ (f.bytes ++ WireFrame.stream fs))
  | footer (h : MsgHeader) (f : MsgFooter) (front middle data : Bytes) (fs : List WireFrame)
      (hs : c.state = .openMessageReadFooter) (hh : c.currentHeader = h) (hfront : c.front = front)
      (hmiddle : c.middle = middle) (hdata : c.data = data) :
    Owes c pieces (.msg h f front middle data :: fs) (f.bytes ++ WireFrame.stream fs)
  | dispatch (h : MsgHeader) (f : MsgFooter) (front middle data : Bytes) (fs : List WireFrame)
      (hs : c.state = .openMessageThrottleDispatchSize ∨ c.state = .openMessageDispatch)
      (hh : c.currentHeader = h) (hf : c.currentFooter = f) (hfront : c.front = front)
      (hmiddle : c.middle = middle) (hdata : c.data = data) :
    Owes c pieces (.msg h f front middle data :: fs) (WireFrame.stream fs)

/-- How many bytes the current target takes. -/
def wanted (s : Reader β) : ℕ :=
  if s.conn.state = .openMessageReadData then if s.conn.msgLeft = 0 then 0 else s.pieces.headD 0
  else (s.conn.readCall.map Prod.snd).getD 0

/-- The connection has read its part of a stream of frames, and `fs` are to come. -/
structure Framed (K : Codec) (flags : CrcFlags) (s : Reader β) (fs : List WireFrame) : Prop where
  owes : Owes s.conn s.pieces fs s.recv.unread
  sendable : ∀ f ∈ fs, f.Sendable K flags
  clear : s.recv.buf = [] ∨ s.recv.part = []
  short : s.recv.part = [] ∨ s.recv.part.length < s.wanted

/-- How far a state is from the next read, in a frame. -/
def rank (st : State) : ℕ := if st = .opened then 0 else 16 - st.code

/-- What decreases from pass to pass: the bytes to come and, among equal, the states before the next
read. -/
def measure (s : Reader β) : ℕ := 16 * s.recv.unread.length + rank s.conn.state

/-- What a pass leaves of a connection that is to read `fs`: it waits for more bytes in the same state, or
has come nearer to the end of the stream, or has dispatched enough for once. -/
inductive Passed (K : Codec) (flags : CrcFlags) (s : Reader β) (fs : List WireFrame) :
    Option (Reader β × Bool) → Prop
  | waits (s' : Reader β) (hframed : Framed K flags s' fs) (hdecoded : s'.decoded = s.decoded)
      (hstate : s'.conn.state = s.conn.state) (hbuf : s'.recv.buf = []) (hwanted : s'.wanted ≠ 0)
      (hmeasure : s'.measure ≤ s.measure) :
    Passed K flags s fs (some (s', false))
  | goes (s' : Reader β) (read fs' : List WireFrame) (hframed : Framed K flags s' fs')
      (hread : read ++ fs' = fs) (hdecoded : s'.decoded = s.decoded ++ read)
      (hstate : s'.conn.state ≠ s.conn.state) (hmeasure : s'.measure < s.measure) :
    Passed K flags s fs (some (s', false))
  | returns (s' : Reader β) (read fs' : List WireFrame) (hframed : Framed K flags s' fs')
      (hread : read ++ fs' = fs) (hdecoded : s'.decoded = s.decoded ++ read)
      (hstate : s'.conn.state = .opened) (hlater : s'.recv.buf = [] ∨ s'.conn.evProcess = true)
      (hmeasure : s'.measure < s.measure) :
    Passed K flags s fs (some (s', true))

/-! ## One read

Most states begin with one read of a fixed length and go on with what it got. The lemmas here are
about that shape, for any length and whatever comes behind; a state of the machine then only has to
say what it does with its item. -/

variable {K : Codec} {flags : CrcFlags} {maxPrefetch page : ℕ}

/-- A pass that gets nothing from its read leaves the connection alone. -/
theorem processOpen_again {c : Conn β} {inp : Input β} {x : Conn.Target × ℕ}
    (hopen : c.state.isOpen = true) (hcall : c.readCall = some x) (hread : inp.read = .again) :
    c.processOpen K flags inp = { conn := c, gseq := inp.gseq } := by
  rw [Conn.readCall] at hcall
  rw [Conn.processOpen]
  cases hs : c.state with
  | openMessageReadFront | openMessageReadMiddle | openMessageReadData =>
    simp only [hs] at hcall ⊢
    split_ifs at hcall with hlen
    rw [if_neg hlen, Conn.onRead, hread]
  | opened | openKeepalive2 | openKeepalive2Ack | openTagAck | openMessageHeader
  | openMessageReadFooter =>
    simp only [Conn.onRead, hread]
  | _ =>
    rw [hs] at hopen hcall
    first
      | exact absurd hopen (by decide)
      | exact absurd hcall (by simp)

/-- A read of `len` bytes: the pass waits for more, or goes on with the next `len` bytes. -/
theorem passed_of_read {s : Reader β} {fs : List WireFrame} {env : Env} {t : Conn.Target} {len : ℕ}
    (h : Framed K flags s fs) (hopen : s.conn.state.isOpen = true)
    (hstate : s.conn.state ≠ .openMessageReadData) (hcall : s.conn.readCall = some (t, len))
    (hpos : 0 < len) (hshort : len < 2 ^ 31)
    (hdone : ∀ (x : Bytes) (recv : Recv), x.length = len → recv.part = [] →
      x ++ recv.unread = s.recv.unread →
      Passed K flags s fs (finish ({ s with recv }.record page x)
        (s.conn.processOpen K flags
          (({ s with recv } : Reader β).input env (.done (s.conn.chunkOf x)))))) :
    Passed K flags s fs (s.pass K flags maxPrefetch page env) := by
  have hwanted (recv : Recv) : ({ s with recv } : Reader β).wanted = len := by
    rw [wanted, if_neg hstate, hcall]
    rfl
  have hpart : s.recv.part.length < len := by
    rcases h.short with hnil | hlt
    · rw [hnil]
      exact hpos
    · exact hwanted s.recv ▸ hlt
  have hreads := Recv.reads_readUntil maxPrefetch (env.reads 0) h.clear hpart
  rw [pass, if_neg hstate, hcall]
  dsimp only
  generalize s.recv.readUntil maxPrefetch len (env.reads 0) = got at hreads ⊢
  cases hreads with
  | done bs recv hbs hnil hall => exact hdone bs recv hbs hnil hall
  | again recv hbuf hlt hall =>
    dsimp only
    rw [if_neg (by omega), processOpen_again hopen hcall rfl]
    refine .waits { s with recv } ?_ rfl rfl hbuf ?_ (Nat.le_of_eq ?_)
    · exact {
        owes := hall ▸ h.owes
        sendable := h.sendable
        clear := Or.inl hbuf
        short := Or.inr (hwanted recv ▸ hlt) }
    · rw [hwanted]
      exact hpos.ne'
    · simp only [measure, hall]

/-- A read of the next item: the pass waits for the rest of it, or goes on with the item. -/
theorem passed_of_item {s : Reader β} {fs : List WireFrame} {env : Env} {t : Conn.Target}
    {x rest : Bytes} (h : Framed K flags s fs) (hopen : s.conn.state.isOpen = true)
    (hstate : s.conn.state ≠ .openMessageReadData) (hcall : s.conn.readCall = some (t, x.length))
    (hpos : 0 < x.length) (hshort : x.length < 2 ^ 31) (hunread : s.recv.unread = x ++ rest)
    (hdone : ∀ recv : Recv, recv.part = [] → recv.unread = rest →
      Passed K flags s fs (finish ({ s with recv }.record page x)
        (s.conn.processOpen K flags
          (({ s with recv } : Reader β).input env (.done (s.conn.chunkOf x)))))) :
    Passed K flags s fs (s.pass K flags maxPrefetch page env) := by
  refine passed_of_read h hopen hstate hcall hpos hshort fun y recv hlen hpart hall ↦ ?_
  obtain ⟨rfl, hrest⟩ := List.append_inj (hall.trans hunread) hlen
  exact hdone recv hpart hrest

/-- The pass goes on, with the next part of the stream behind it. -/
theorem Passed.next (read : List WireFrame) {s s' : Reader β} {fs fs' : List WireFrame} {rest : Bytes}
    (h : Framed K flags s fs) (howes : Owes s'.conn s'.pieces fs' rest) (hrest : s'.recv.unread = rest)
    (hpart : s'.recv.part = []) (hread : read ++ fs' = fs) (hdecoded : s'.decoded = s.decoded ++ read)
    (hstate : s'.conn.state ≠ s.conn.state)
    (hmeasure : 16 * rest.length + rank s'.conn.state < s.measure) :
    Passed K flags s fs (some (s', false)) := by
  refine .goes s' read fs' ?_ hread hdecoded hstate ?_
  · exact {
      owes := hrest.symm ▸ howes
      sendable := fun f hf ↦ h.sendable f (hread ▸ List.mem_append_right read hf)
      clear := Or.inr hpart
      short := Or.inl hpart }
  · rwa [measure, hrest]

/-- In a state without a read nothing of a target has been filled. -/
theorem Framed.part_eq_nil {s : Reader β} {fs : List WireFrame} (h : Framed K flags s fs)
    (hwanted : s.wanted = 0) : s.recv.part = [] := by
  rcases h.short with hnil | hlt
  · exact hnil
  · exact absurd hlt (by omega)

/-- A pass that reads an item and goes to the next state. -/
theorem passed_by_item {s : Reader β} {f : WireFrame} {fs : List WireFrame} {env : Env}
    {t : Conn.Target} {x rest : Bytes} (c : Conn β) (st : State) (h : Framed K flags s (f :: fs))
    (hopen : s.conn.state.isOpen = true) (hne : s.conn.state ≠ .openMessageReadData)
    (hcall : s.conn.readCall = some (t, x.length)) (hpos : 0 < x.length) (hshort : x.length < 2 ^ 31)
    (hunread : s.recv.unread = x ++ rest)
    (hrecord : ∀ recv : Recv, ({ s with recv } : Reader β).record page x = { s with recv })
    (hpass : ∀ inp : Input β, inp.read = .done (s.conn.chunkOf x) →
      s.conn.processOpen K flags inp = c.goto st inp.gseq)
    (howes : Owes { c with state := st } s.pieces (f :: fs) rest) (hst : st ≠ s.conn.state)
    (hrank : rank st < 16) :
    Passed K flags s (f :: fs) (s.pass K flags maxPrefetch page env) := by
  refine passed_of_item h hopen hne hcall hpos hshort hunread fun recv hpart hrest ↦ ?_
  rw [hpass _ rfl, hrecord]
  refine Passed.next [] h howes hrest hpart rfl (List.append_nil _).symm hst ?_
  rw [measure, hunread, List.length_append]
  simp only [Conn.goto]
  omega

/-- A pass without a read goes to the next state. -/
theorem passed_by_goto {s : Reader β} {f : WireFrame} {fs : List WireFrame} {env : Env}
    (c : Conn β) (pieces : List ℕ) (st : State) (h : Framed K flags s (f :: fs))
    (hne : s.conn.state ≠ .openMessageReadData) (hcall : s.conn.readCall = none)
    (hrecord : s.record page [] = { s with pieces })
    (hpass : ∀ inp : Input β, ∃ effect,
      s.conn.processOpen K flags inp = { c.goto st inp.gseq with effect })
    (howes : Owes { c with state := st } pieces (f :: fs) s.recv.unread)
    (hrank : rank st < rank s.conn.state) :
    Passed K flags s (f :: fs) (s.pass K flags maxPrefetch page env) := by
  obtain ⟨effect, hpass⟩ := hpass (s.input env .again)
  have hwanted : s.wanted = 0 := by
    rw [wanted, if_neg hne, hcall]
    rfl
  rw [pass, if_neg hne, hcall]
  dsimp only
  rw [hpass, hrecord]
  refine Passed.next [] h howes rfl (h.part_eq_nil hwanted) rfl (List.append_nil _).symm ?_
    (Nat.add_lt_add_left hrank _)
  rintro hst
  exact absurd hrank (by rw [← hst]; exact lt_irrefl _)

/-! ## The states

In the order of `do_process`. The data section is the one that takes more than one read: its buffers
are filled one after the other, and a pass may stop between any two of them or in the midst of one. -/

theorem length_headerBytes (h : MsgHeader) : h.bytes.length = 53 :=
  LittleEndian.length_encodeFields rfl

theorem length_footerBytes (f : MsgFooter) : f.bytes.length = 21 :=
  LittleEndian.length_encodeFields rfl

theorem length_timespecBytes (t : Timespec) : t.bytes.length = 8 :=
  LittleEndian.length_encodeFields rfl

/-- `STATE_OPEN`. -/
theorem passed_opened {s : Reader β} {fs : List WireFrame} {env : Env} (h : Framed K flags s fs)
    (hs : s.conn.state = .opened) (hunread : s.recv.unread = WireFrame.stream fs) :
    Passed K flags s fs (s.pass K flags maxPrefetch page env) := by
  have hcall : s.conn.readCall = some (.tag, 1) := by
    rw [Conn.readCall, hs]
  refine passed_of_read h (by rw [hs]; rfl) (by rw [hs]; decide) hcall (by decide) (by decide)
    fun x recv hlen hpart hall ↦ ?_
  rw [hunread] at hall
  cases fs with
  | nil => exact absurd hlen (by rw [(List.append_eq_nil_iff.mp hall).1]; decide)
  | cons f fs =>
    rw [WireFrame.stream_cons, WireFrame.bytes_eq, List.append_assoc] at hall
    obtain ⟨rfl, hrest⟩ := List.append_inj hall hlen
    have hpass : s.conn.processOpen K flags (({ s with recv } : Reader β).input env
        (.done (s.conn.chunkOf (LittleEndian.encode 1 f.tag)))) = s.conn.goto f.entered 0 := by
      rw [Conn.processOpen, hs]
      simp only [Conn.onRead, input, Conn.chunkOf, hs, WireFrame.decode_tag,
        WireFrame.stateOfTag_tag]
    have hrecord : ({ s with recv } : Reader β).record page (LittleEndian.encode 1 f.tag) =
        { s with recv } := by
      rw [record]
      simp only [hs]
    rw [hpass, hrecord]
    refine Passed.next [] h (.entered f fs rfl) hrest hpart rfl
      (List.append_nil _).symm ?_ ?_
    · rw [hs]
      cases f <;> exact State.noConfusion
    · have hrank : rank f.entered < 16 := by
        cases f <;> exact of_decide_eq_true rfl
      rw [measure, hunread, WireFrame.stream_cons, WireFrame.bytes_eq, hs]
      simp only [List.length_append, LittleEndian.length_encode, Conn.goto]
      omega

/-- A frame that is one item, an ACK or a keepalive. -/
theorem passed_single {s : Reader β} {f : WireFrame} {fs : List WireFrame} {env : Env}
    {t : Conn.Target} {c : Conn β} (h : Framed K flags s (f :: fs)) (hs : s.conn.state = f.entered)
    (hunread : s.recv.unread = f.body ++ WireFrame.stream fs)
    (hcall : s.conn.readCall = some (t, f.body.length)) (hlen : f.body.length = 8)
    (hrecord : ∀ recv : Recv,
      (({ s with recv } : Reader β).record page f.body).decoded = s.decoded ++ [f] ∧
      (({ s with recv } : Reader β).record page f.body).recv = recv)
    (hpass : ∀ inp : Input β, inp.read = .done (s.conn.chunkOf f.body) →
      s.conn.processOpen K flags inp = c.goto .opened inp.gseq) :
    Passed K flags s (f :: fs) (s.pass K flags maxPrefetch page env) := by
  have hopen : s.conn.state.isOpen = true := by
    rw [hs]
    cases f <;> rfl
  have hne : s.conn.state ≠ .openMessageReadData := by
    rw [hs]
    cases f <;> exact State.noConfusion
  refine passed_of_item h hopen hne hcall (by omega) (by omega) hunread fun recv hpart hrest ↦ ?_
  obtain ⟨hdecoded, hrecv⟩ := hrecord recv
  rw [hpass _ rfl]
  refine Passed.next [f] h (.opened fs rfl) ?_ ?_ rfl hdecoded ?_ ?_
  · rw [hrecv]
    exact hrest
  · rw [hrecv]
    exact hpart
  · rw [hs]
    cases f <;> exact State.noConfusion
  · rw [measure, hunread, List.length_append, hlen]
    simp only [Conn.goto, rank, if_true]
    omega

/-- The states entered with the tag. -/
theorem passed_entered {s : Reader β} {f : WireFrame} {fs : List WireFrame} {env : Env}
    (h : Framed K flags s (f :: fs)) (hs : s.conn.state = f.entered)
    (hunread : s.recv.unread = f.body ++ WireFrame.stream fs) :
    Passed K flags s (f :: fs) (s.pass K flags maxPrefetch page env) := by
  have hsendable := h.sendable f List.mem_cons_self
  cases f with
  | msg header footer front middle data =>
    have hsound := WireFrame.sound_of_sendable hsendable
    have hcall : s.conn.readCall = some (.stateBuffer, header.bytes.length) := by
      rw [Conn.readCall, hs, length_headerBytes]
      rfl
    have hlen := length_headerBytes header
    rw [WireFrame.body, List.append_assoc] at hunread
    refine passed_by_item
      { s.conn with front := [], middle := [], data := [], currentHeader := header }
      .openMessageThrottleMessage h
      (by rw [hs]; rfl) (by rw [hs]; exact State.noConfusion) hcall (by omega) (by omega) hunread
      (fun recv ↦ ?_) (fun inp hread ↦ ?_) ?_ (by rw [hs]; exact State.noConfusion) (by decide)
    · simp only [record, hs, WireFrame.entered]
    · simp only [Conn.processOpen, hs, WireFrame.entered, Conn.onRead, hread, Conn.chunkOf,
        hsound.readHeader, Conn.gotHeader]
      rw [if_neg fun hbad ↦ hbad.2 (hsound.headerCrc hbad.1)]
    · simp only [List.append_assoc]
      exact .front header footer front middle data fs (Or.inl rfl) rfl rfl rfl rfl
  | ack seq =>
    cases hsendable with
    | ack _ hseq =>
      have hdecode : LittleEndian.decode (LittleEndian.encode 8 seq) = seq :=
        LittleEndian.decode_encode_of_lt hseq
      refine passed_single (t := .stateBuffer) (c := { s.conn with q := s.conn.q.handleAck seq }) h hs
        hunread (by rw [Conn.readCall, hs]; rfl) rfl (fun recv ↦ ?_) fun inp hread ↦ ?_
      · rw [record]
        simp only [hs, WireFrame.entered, WireFrame.body, hdecode, and_self]
      · rw [Conn.processOpen, hs]
        simp only [WireFrame.entered, Conn.onRead, hread, Conn.chunkOf, hs, WireFrame.body, hdecode]
  | keepalive2 t =>
    cases hsendable with
    | keepalive2 _ hfit =>
      refine passed_single (t := .stateBuffer)
        (c := ({ s.conn with keepaliveAck := true } : Conn β).startWrite) h hs hunread
        (by rw [Conn.readCall, hs, WireFrame.body, length_timespecBytes]; rfl)
        (length_timespecBytes t) (fun recv ↦ ?_) fun inp hread ↦ ?_
      · rw [record]
        simp only [hs, WireFrame.entered, WireFrame.body, Timespec.ofBytes_bytes hfit, and_self]
      · rw [Conn.processOpen, hs]
        simp only [WireFrame.entered, Conn.onRead, hread, hs]
  | keepalive2Ack t =>
    cases hsendable with
    | keepalive2Ack _ hfit =>
      refine passed_single (t := .stateBuffer) (c := s.conn) h hs hunread
        (by rw [Conn.readCall, hs, WireFrame.body, length_timespecBytes]; rfl)
        (length_timespecBytes t) (fun recv ↦ ?_) fun inp hread ↦ ?_
      · rw [record]
        simp only [hs, WireFrame.entered, WireFrame.body, Timespec.ofBytes_bytes hfit, and_self]
      · rw [Conn.processOpen, hs]
        simp only [WireFrame.entered, Conn.onRead, hread]

/-- The throttles and the front section. -/
theorem passed_front {s : Reader β} {header : MsgHeader} {footer : MsgFooter}
    {front middle data : Bytes} {fs : List WireFrame} {env : Env}
    (h : Framed K flags s (.msg header footer front middle data :: fs))
    (hs : s.conn.state = .openMessageThrottleMessage ∨ s.conn.state = .openMessageThrottleBytes ∨
      s.conn.state = .openMessageReadFront)
    (hh : s.conn.currentHeader = header) (hfront : s.conn.front = []) (hmiddle : s.conn.middle = [])
    (hdata : s.conn.data = []) (hunread : s.recv.unread =
      front ++ (middle ++ (data ++ (footer.bytes ++ WireFrame.stream fs)))) :
    Passed K flags s (.msg header footer front middle data :: fs)
      (s.pass K flags maxPrefetch page env) := by
  have hsound := WireFrame.sound_of_sendable (h.sendable _ List.mem_cons_self)
  rcases hs with hs | hs | hs
  · refine passed_by_goto s.conn s.pieces .openMessageThrottleBytes h
      (by rw [hs]; exact State.noConfusion) (by rw [Conn.readCall, hs]) (by simp only [record, hs])
      (fun inp ↦ ⟨_, by simp only [Conn.processOpen, hs]; rfl⟩) ?_ (by rw [hs]; decide)
    rw [hunread]
    exact .front header footer front middle data fs (Or.inr (Or.inl rfl)) hh hfront hmiddle hdata
  · refine passed_by_goto s.conn s.pieces .openMessageReadFront h
      (by rw [hs]; exact State.noConfusion) (by rw [Conn.readCall, hs]) (by simp only [record, hs])
      (fun inp ↦ ⟨_, by simp only [Conn.processOpen, hs]; rfl⟩) ?_ (by rw [hs]; decide)
    rw [hunread]
    exact .front header footer front middle data fs (Or.inr (Or.inr rfl)) hh hfront hmiddle hdata
  · have hne : s.conn.state ≠ .openMessageReadData := by
      rw [hs]
      exact State.noConfusion
    have hlen : s.conn.currentHeader.frontLen = front.length := by
      rw [hh, hsound.frontLen]
    by_cases hnil : front = []
    · have hzero : s.conn.currentHeader.frontLen = 0 := by
        rw [hlen, hnil]
        rfl
      refine passed_by_goto s.conn s.pieces .openMessageReadMiddle h hne
        (by simp only [Conn.readCall, hs, if_pos hzero]) (by simp only [record, hs])
        (fun inp ↦ ⟨_, by simp only [Conn.processOpen, hs, if_pos hzero]; rfl⟩) ?_ (by rw [hs]; decide)
      rw [hunread, hnil]
      exact .middle header footer [] middle data fs rfl hh hfront hmiddle hdata
    · have hpos : 0 < front.length := List.length_pos_iff.mpr hnil
      have hzero : s.conn.currentHeader.frontLen ≠ 0 := by omega
      have hcall : s.conn.readCall = some (.section, front.length) := by
        rw [← hlen]
        simp only [Conn.readCall, hs, if_neg hzero]
      refine passed_by_item { s.conn with front } .openMessageReadMiddle h
        (by rw [hs]; rfl) hne hcall hpos hsound.short.1 hunread (fun recv ↦ ?_) (fun inp hread ↦ ?_) ?_
        (by rw [hs]; exact State.noConfusion) (by decide)
      · simp only [record, hs]
      · simp only [Conn.processOpen, hs, if_neg hzero, Conn.onRead, hread, Conn.chunkOf]
      · exact .middle header footer front middle data fs rfl hh rfl hmiddle hdata

/-- The middle section. -/
theorem passed_middle {s : Reader β} {header : MsgHeader} {footer : MsgFooter}
    {front middle data : Bytes} {fs : List WireFrame} {env : Env}
    (h : Framed K flags s (.msg header footer front middle data :: fs))
    (hs : s.conn.state = .openMessageReadMiddle) (hh : s.conn.currentHeader = header)
    (hfront : s.conn.front = front) (hmiddle : s.conn.middle = []) (hdata : s.conn.data = [])
    (hunread : s.recv.unread = middle ++ (data ++ (footer.bytes ++ WireFrame.stream fs))) :
    Passed K flags s (.msg header footer front middle data :: fs)
      (s.pass K flags maxPrefetch page env) := by
  have hsound := WireFrame.sound_of_sendable (h.sendable _ List.mem_cons_self)
  have hne : s.conn.state ≠ .openMessageReadData := by
    rw [hs]
    exact State.noConfusion
  have hlen : s.conn.currentHeader.middleLen = middle.length := by
    rw [hh, hsound.middleLen]
  by_cases hnil : middle = []
  · have hzero : s.conn.currentHeader.middleLen = 0 := by
      rw [hlen, hnil]
      rfl
    refine passed_by_goto s.conn s.pieces .openMessageReadDataPrepare h hne
      (by simp only [Conn.readCall, hs, if_pos hzero]) (by simp only [record, hs])
      (fun inp ↦ ⟨_, by simp only [Conn.processOpen, hs, if_pos hzero]; rfl⟩) ?_ (by rw [hs]; decide)
    rw [hunread, hnil]
    exact .prepare header footer front [] data fs rfl hh hfront hmiddle hdata
  · have hpos : 0 < middle.length := List.length_pos_iff.mpr hnil
    have hzero : s.conn.currentHeader.middleLen ≠ 0 := by omega
    have hcall : s.conn.readCall = some (.section, middle.length) := by
      rw [← hlen]
      simp only [Conn.readCall, hs, if_neg hzero]
    refine passed_by_item { s.conn with middle } .openMessageReadDataPrepare h
      (by rw [hs]; rfl) hne hcall hpos hsound.short.2.1 hunread (fun recv ↦ ?_) (fun inp hread ↦ ?_) ?_
      (by rw [hs]; exact State.noConfusion) (by decide)
    · simp only [record, hs]
    · simp only [Conn.processOpen, hs, if_neg hzero, Conn.onRead, hread, Conn.chunkOf]
    · exact .prepare header footer front middle data fs rfl hh hfront rfl hdata

/-- The buffers for the data section hold as many bytes as it has, and none is empty. -/
theorem allocateMsgData_pieces (page off : ℕ) {len : ℕ} (hpos : 0 < len) :
    (allocateMsgData page off len).sum = len ∧ ∀ p ∈ allocateMsgData page off len, 0 < p := by
  have hle : off &&& (page - 1) ≤ page - 1 := Nat.and_le_right
  rw [allocateMsgData]
  by_cases hoff : off &&& (page - 1) = 0
  · rw [if_neg (not_not_intro hoff), if_neg (not_not_intro hoff), if_pos (by omega)]
    simpa using hpos
  · rw [if_pos hoff, if_pos hoff]
    have hhead : 0 < min (page - (off &&& (page - 1))) len := by omega
    have hhead_le : min (page - (off &&& (page - 1))) len ≤ len := Nat.min_le_right ..
    by_cases hleft : len - min (page - (off &&& (page - 1))) len = 0
    · rw [if_neg (not_not_intro hleft)]
      simp only [List.append_nil, List.sum_singleton, List.mem_singleton, forall_eq]
      exact ⟨by omega, hhead⟩
    · rw [if_pos hleft]
      simp only [List.cons_append, List.nil_append, List.sum_cons, List.sum_nil, List.mem_cons,
        List.not_mem_nil, or_false, forall_eq_or_imp, forall_eq]
      exact ⟨by omega, hhead, by omega⟩

/-- The buffers for the data section are allocated. -/
theorem passed_prepare {s : Reader β} {header : MsgHeader} {footer : MsgFooter}
    {front middle data : Bytes} {fs : List WireFrame} {env : Env}
    (h : Framed K flags s (.msg header footer front middle data :: fs))
    (hs : s.conn.state = .openMessageReadDataPrepare) (hh : s.conn.currentHeader = header)
    (hfront : s.conn.front = front) (hmiddle : s.conn.middle = middle) (hdata : s.conn.data = [])
    (hunread : s.recv.unread = data ++ (footer.bytes ++ WireFrame.stream fs)) :
    Passed K flags s (.msg header footer front middle data :: fs)
      (s.pass K flags maxPrefetch page env) := by
  have hsound := WireFrame.sound_of_sendable (h.sendable _ List.mem_cons_self)
  have hlen : s.conn.currentHeader.dataLen = data.length := by
    rw [hh, hsound.dataLen]
  refine passed_by_goto { s.conn with msgLeft := s.conn.currentHeader.dataLen }
    (if s.conn.currentHeader.dataLen = 0 then s.pieces else
      allocateMsgData page s.conn.currentHeader.dataOff s.conn.currentHeader.dataLen)
    .openMessageReadData h (by rw [hs]; exact State.noConfusion) (by rw [Conn.readCall, hs]) ?_
    (fun inp ↦ ⟨_, by simp only [Conn.processOpen, hs]; rfl⟩) ?_ (by rw [hs]; decide)
  · simp only [record, hs]
    split_ifs <;> rfl
  · rw [hunread]
    refine .data header footer front middle data data fs rfl hh hfront hmiddle ?_ hlen ?_
    · rw [hdata]
      rfl
    · by_cases hzero : s.conn.currentHeader.dataLen = 0
      · exact Or.inl (List.eq_nil_of_length_eq_zero (hlen.symm.trans hzero))
      · rw [if_neg hzero, ← hlen]
        exact Or.inr (allocateMsgData_pieces page _ (Nat.pos_of_ne_zero hzero))

/-- The loop over the buffers of the data section: the buffers that are full make up the next bytes of
the stream, and what has come for the first of the others is kept. -/
theorem readData_spec (maxPrefetch : ℕ) (reads : ℕ → List ℕ) {n left : ℕ} {pieces : List ℕ} {recv : Recv}
    (hsum : pieces.sum = left) (hpos : ∀ p ∈ pieces, 0 < p) (hleft : left < 2 ^ 31)
    (hclear : recv.buf = [] ∨ recv.part = [])
    (hshort : recv.part = [] ∨ recv.part.length < pieces.headD 0) :
    ∃ bs pieces' recv', readData maxPrefetch reads n pieces left recv = some (bs, pieces', recv') ∧
      bs ++ recv'.unread = recv.unread ∧ bs.length + pieces'.sum = left ∧ (∀ p ∈ pieces', 0 < p) ∧
      (pieces' = [] ∧ recv'.part = [] ∨ recv'.buf = [] ∧ recv'.part.length < pieces'.headD 0) := by
  induction pieces generalizing n left recv with
  | nil =>
    have hnil : recv.part = [] := by
      rcases hshort with hnil | hlt
      · exact hnil
      · exact absurd hlt (Nat.not_lt_zero _)
    have hzero : left = 0 := hsum.symm
    refine ⟨[], [], recv, ?_, rfl, hsum, hpos, Or.inl ⟨rfl, hnil⟩⟩
    rw [readData, if_pos hzero]
  | cons p ps ih =>
    have hp : 0 < p := hpos p List.mem_cons_self
    rw [List.sum_cons] at hsum
    have hpart : recv.part.length < p := by
      rcases hshort with hnil | hlt
      · rw [hnil]
        exact hp
      · exact hlt
    have hreads := Recv.reads_readUntil maxPrefetch (reads n) hclear hpart
    rw [readData, if_neg (by omega), Nat.min_eq_left (by omega)]
    generalize recv.readUntil maxPrefetch p (reads n) = got at hreads ⊢
    cases hreads with
    | again recv' hbuf hlt hall =>
      dsimp only
      rw [if_neg (by omega)]
      exact ⟨[], p :: ps, recv', rfl, hall, (Nat.zero_add _).trans hsum, hpos, Or.inr ⟨hbuf, hlt⟩⟩
    | done bs recv' hlen hnil hall =>
      dsimp only
      rw [if_neg (by omega)]
      obtain ⟨bs', pieces', recv'', heq, hall', hlen', hpos', hend⟩ :=
        @ih (n + 1) (left - p) recv' (by omega)
          (fun q hq ↦ hpos q (List.mem_cons_of_mem p hq)) (by omega) (Or.inr hnil) (Or.inl hnil)
      rw [heq]
      refine ⟨bs ++ bs', pieces', recv'', rfl, ?_, ?_, hpos', hend⟩
      · rw [List.append_assoc, hall', hall]
      · rw [List.length_append]
        omega

/-- What the loop does to a data section of which `rest` is to come. -/
theorem readData_rest (maxPrefetch : ℕ) (reads : ℕ → List ℕ) {pieces : List ℕ} {recv : Recv} {rest tail : Bytes}
    (hsum : pieces.sum = rest.length) (hpos : ∀ p ∈ pieces, 0 < p) (hlong : rest.length < 2 ^ 31)
    (hclear : recv.buf = [] ∨ recv.part = [])
    (hshort : recv.part = [] ∨ recv.part.length < pieces.headD 0) (hunread : recv.unread = rest ++ tail) :
    ∃ bs left pieces' recv',
      readData maxPrefetch reads 0 pieces rest.length recv = some (bs, pieces', recv') ∧
      rest = bs ++ left ∧ recv'.unread = left ++ tail ∧ pieces'.sum = left.length ∧
      (∀ p ∈ pieces', 0 < p) ∧ (left = [] → recv'.part = []) ∧
      (left ≠ [] → recv'.buf = [] ∧ recv'.part.length < pieces'.headD 0) := by
  obtain ⟨bs, pieces', recv', hdone, hall, hlen, hpos', hend⟩ :=
    readData_spec maxPrefetch reads (n := 0) hsum hpos hlong hclear hshort
  rw [hunread] at hall
  obtain ⟨left, hrest⟩ := List.prefix_of_prefix_length_le
    (hall ▸ List.prefix_append bs recv'.unread) (List.prefix_append rest tail) (by omega)
  have hsum' : pieces'.sum = left.length := by
    rw [← hrest, List.length_append] at hlen
    omega
  refine ⟨bs, left, pieces', recv', hdone, hrest.symm, ?_, hsum', hpos', ?_, ?_⟩
  · rw [← hrest, List.append_assoc] at hall
    exact List.append_cancel_left hall
  · rintro hleft
    rcases hend with ⟨-, hpart⟩ | ⟨-, hlt⟩
    · exact hpart
    · cases pieces' with
      | nil => exact absurd hlt (Nat.not_lt_zero _)
      | cons p ps =>
        have hp := hpos' p List.mem_cons_self
        rw [hleft, List.sum_cons, List.length_nil] at hsum'
        omega
  · intro hleft
    refine hend.resolve_left fun hbad ↦ hleft (List.eq_nil_of_length_eq_zero ?_)
    rw [← hsum', hbad.1, List.sum_nil]

/-- The buffers of the data section do not fill up in this pass. -/
theorem Passed.waits_data {s : Reader β} {header : MsgHeader} {footer : MsgFooter}
    {front middle data left : Bytes} {fs : List WireFrame} {c : Conn β} {pieces : List ℕ} {recv : Recv}
    (h : Framed K flags s (.msg header footer front middle data :: fs))
    (hs : s.conn.state = .openMessageReadData) (hc : c.state = .openMessageReadData)
    (hh : c.currentHeader = header) (hfront : c.front = front) (hmiddle : c.middle = middle)
    (hdata : c.data ++ left = data) (hleft : c.msgLeft = left.length) (hne : left ≠ [])
    (hsum : pieces.sum = left.length) (hpos : ∀ p ∈ pieces, 0 < p) (hbuf : recv.buf = [])
    (hshort : recv.part.length < pieces.headD 0)
    (hunread : recv.unread = left ++ (footer.bytes ++ WireFrame.stream fs))
    (hmeasure : recv.unread.length ≤ s.recv.unread.length) :
    Passed K flags s (.msg header footer front middle data :: fs)
      (some ({ s with conn := c, pieces, recv }, false)) := by
  have hmore : c.msgLeft ≠ 0 := by
    rw [hleft]
    exact (List.length_pos_iff.mpr hne).ne'
  have hwanted : ({ s with conn := c, pieces, recv } : Reader β).wanted = pieces.headD 0 := by
    simp only [wanted, hc, if_true, if_neg hmore]
  refine .waits { s with conn := c, pieces, recv } ?_ rfl (hc.trans hs.symm) hbuf (by omega) ?_
  · exact {
      owes := hunread ▸ .data header footer front middle data left fs hc hh hfront hmiddle hdata hleft
        (Or.inr ⟨hsum, hpos⟩)
      sendable := h.sendable
      clear := Or.inl hbuf
      short := Or.inr (hwanted.symm ▸ hshort) }
  · simp only [measure, hc, hs]
    omega

/-- The data section is complete. -/
theorem passed_data_nil {s : Reader β} {header : MsgHeader} {footer : MsgFooter}
    {front middle data : Bytes} {fs : List WireFrame} {env : Env}
    (h : Framed K flags s (.msg header footer front middle data :: fs))
    (hs : s.conn.state = .openMessageReadData) (hh : s.conn.currentHeader = header)
    (hfront : s.conn.front = front) (hmiddle : s.conn.middle = middle) (hdata : s.conn.data = data)
    (hleft : s.conn.msgLeft = 0) (hunread : s.recv.unread = footer.bytes ++ WireFrame.stream fs) :
    Passed K flags s (.msg header footer front middle data :: fs)
      (s.pass K flags maxPrefetch page env) := by
  have hdone : readData maxPrefetch env.reads 0 s.pieces s.conn.msgLeft s.recv =
      some ([], s.pieces, s.recv) := by
    rw [hleft]
    cases s.pieces with
    | nil => rw [readData, if_pos rfl]
    | cons p ps => rw [readData, if_pos rfl]
  have hpart : s.recv.part = [] := by
    apply h.part_eq_nil
    rw [wanted, if_pos hs, if_pos hleft]
  rw [pass, if_pos hs, hdone]
  simp only [Option.bind_some, Conn.processOpen, hs, if_pos hleft]
  refine Passed.next [] h
    (.footer header footer front middle data fs rfl hh hfront hmiddle hdata) hunread hpart rfl
    (List.append_nil _).symm (by rw [hs]; exact State.noConfusion) ?_
  rw [measure, hunread, hs]
  exact Nat.add_lt_add_left (of_decide_eq_true rfl) _

/-- The data section. -/
theorem passed_data {s : Reader β} {header : MsgHeader} {footer : MsgFooter}
    {front middle data rest : Bytes} {fs : List WireFrame} {env : Env}
    (h : Framed K flags s (.msg header footer front middle data :: fs))
    (hs : s.conn.state = .openMessageReadData) (hh : s.conn.currentHeader = header)
    (hfront : s.conn.front = front) (hmiddle : s.conn.middle = middle)
    (hdata : s.conn.data ++ rest = data) (hleft : s.conn.msgLeft = rest.length)
    (hpieces : rest = [] ∨ s.pieces.sum = rest.length ∧ ∀ p ∈ s.pieces, 0 < p)
    (hunread : s.recv.unread = rest ++ (footer.bytes ++ WireFrame.stream fs)) :
    Passed K flags s (.msg header footer front middle data :: fs)
      (s.pass K flags maxPrefetch page env) := by
  by_cases hnil : rest = []
  · rw [hnil] at hdata hleft hunread
    exact passed_data_nil h hs hh hfront hmiddle ((List.append_nil _).symm.trans hdata) hleft hunread
  have hpos : 0 < rest.length := List.length_pos_iff.mpr hnil
  have hne : s.conn.msgLeft ≠ 0 := by omega
  obtain ⟨hsum, hpieces⟩ := hpieces.resolve_left hnil
  have hlong : rest.length < 2 ^ 31 := by
    have hshort := (WireFrame.sound_of_sendable (h.sendable _ List.mem_cons_self)).short.2.2
    rw [← hdata, List.length_append] at hshort
    omega
  have hshort : s.recv.part = [] ∨ s.recv.part.length < s.pieces.headD 0 := by
    refine h.short.imp_right fun hlt ↦ ?_
    rwa [wanted, if_pos hs, if_neg hne] at hlt
  obtain ⟨bs, left, pieces, recv, hdone, rfl, hunread', hsum', hpos', hfull, hmore⟩ :=
    readData_rest maxPrefetch env.reads hsum hpieces hlong h.clear hshort hunread
  have hless : recv.unread.length ≤ s.recv.unread.length := by
    rw [hunread, hunread']
    simp only [List.length_append]
    omega
  rw [pass, if_pos hs, hleft, hdone]
  dsimp only [Option.bind_some]
  rw [List.length_append] at hleft hpos
  by_cases hbs : bs = []
  · -- not even the first buffer is full
    rw [if_pos hbs, processOpen_again (by rw [hs]; rfl)
      (x := (.section, s.conn.msgLeft)) (by simp only [Conn.readCall, hs, if_neg hne]) rfl]
    rw [hbs, List.nil_append] at hdata hnil
    rw [hbs, List.length_nil, Nat.zero_add] at hleft
    exact .waits_data h hs hs hh hfront hmiddle hdata hleft hnil hsum' hpos' (hmore hnil).1
      (hmore hnil).2 hunread' hless
  have hpass : s.conn.processOpen K flags (s.input env (.done (.bytes bs))) =
      s.conn.gotData bs 0 := by
    simp only [Conn.processOpen, hs, if_neg hne, Conn.onRead, input]
  rw [if_neg hbs, hpass, Conn.gotData]
  rw [← List.append_assoc] at hdata
  by_cases hleft_nil : left = []
  · -- the last buffer is full
    rw [hleft_nil, List.append_nil] at hdata
    rw [hleft_nil, List.nil_append] at hunread'
    rw [hleft_nil, List.length_nil, Nat.add_zero] at hleft hpos
    rw [if_pos (by omega)]
    refine Passed.next [] h
      (.footer header footer front middle data fs rfl hh hfront hmiddle hdata) hunread'
      (hfull hleft_nil) rfl (List.append_nil _).symm (by rw [hs]; exact State.noConfusion) ?_
    rw [measure, hunread, hs, hleft_nil, List.append_nil]
    have hrank : rank .openMessageReadFooter < 16 := by decide
    simp only [Conn.goto, List.length_append]
    omega
  · -- the pass ends before a buffer is full
    have hleft_pos := List.length_pos_iff.mpr hleft_nil
    rw [if_neg (by omega)]
    exact .waits_data (c := { s.conn with
      data := s.conn.data ++ bs, msgLeft := s.conn.msgLeft - bs.length, state := .openMessageReadData })
      h hs rfl hh hfront hmiddle hdata (Nat.sub_eq_of_eq_add (hleft.trans (Nat.add_comm ..))) hleft_nil
      hsum' hpos' (hmore hleft_nil).1 (hmore hleft_nil).2 hunread' hless

/-- The footer. -/
theorem passed_footer {s : Reader β} {header : MsgHeader} {footer : MsgFooter}
    {front middle data : Bytes} {fs : List WireFrame} {env : Env}
    (h : Framed K flags s (.msg header footer front middle data :: fs))
    (hs : s.conn.state = .openMessageReadFooter) (hh : s.conn.currentHeader = header)
    (hfront : s.conn.front = front) (hmiddle : s.conn.middle = middle) (hdata : s.conn.data = data)
    (hunread : s.recv.unread = footer.bytes ++ WireFrame.stream fs) :
    Passed K flags s (.msg header footer front middle data :: fs)
      (s.pass K flags maxPrefetch page env) := by
  have hsound := WireFrame.sound_of_sendable (h.sendable _ List.mem_cons_self)
  have hlen := length_footerBytes footer
  have hcall : s.conn.readCall = some (.stateBuffer, footer.bytes.length) := by
    rw [Conn.readCall, hs, hlen]
    rfl
  refine passed_by_item { s.conn with currentFooter := footer }
    .openMessageThrottleDispatchSize h (by rw [hs]; rfl) (by rw [hs]; exact State.noConfusion)
    hcall (by omega) (by omega) hunread (fun recv ↦ ?_) (fun inp hread ↦ ?_) ?_
    (by rw [hs]; exact State.noConfusion) (by decide)
  · simp only [record, hs]
  · simp only [Conn.processOpen, hs, Conn.onRead, hread, Conn.chunkOf, hsound.readFooter, Conn.gotFooter]
    rw [if_neg hsound.complete]
  · exact .dispatch header footer front middle data fs (Or.inl rfl) hh rfl hfront hmiddle hdata

/-- The message is complete. -/
theorem passed_dispatch {s : Reader β} {header : MsgHeader} {footer : MsgFooter}
    {front middle data : Bytes} {fs : List WireFrame} {env : Env}
    (h : Framed K flags s (.msg header footer front middle data :: fs))
    (hs : s.conn.state = .openMessageThrottleDispatchSize ∨ s.conn.state = .openMessageDispatch)
    (hh : s.conn.currentHeader = header) (hf : s.conn.currentFooter = footer)
    (hfront : s.conn.front = front) (hmiddle : s.conn.middle = middle) (hdata : s.conn.data = data)
    (hunread : s.recv.unread = WireFrame.stream fs) :
    Passed K flags s (.msg header footer front middle data :: fs)
      (s.pass K flags maxPrefetch page env) := by
  have hsound := WireFrame.sound_of_sendable (h.sendable _ List.mem_cons_self)
  rcases hs with hs | hs
  · refine passed_by_goto s.conn s.pieces .openMessageDispatch h
      (by rw [hs]; exact State.noConfusion) (by rw [Conn.readCall, hs]) (by simp only [record, hs])
      (fun inp ↦ ⟨_, by simp only [Conn.processOpen, hs]; rfl⟩) ?_ (by rw [hs]; decide)
    rw [hunread]
    exact .dispatch header footer front middle data fs (Or.inr rfl) hh hf hfront hmiddle hdata
  · have hne : s.conn.state ≠ .openMessageReadData := by
      rw [hs]
      exact State.noConfusion
    have hcall : s.conn.readCall = none := by
      rw [Conn.readCall, hs]
    have hpart : s.recv.part = [] := by
      apply h.part_eq_nil
      rw [wanted, if_neg hne, hcall]
      rfl
    have hrecord : s.record page [] =
        { s with decoded := s.decoded ++ [.msg header footer front middle data] } := by
      simp only [record, hs, hh, hf, hfront, hmiddle, hdata]
    have hpass : s.conn.processOpen K flags (s.input env .again) =
        s.conn.dispatchMessage K flags (s.input env .again) := by
      simp only [Conn.processOpen, hs]
    have hmeasure : 16 * (WireFrame.stream fs).length + rank .opened < s.measure := by
      rw [measure, hunread, hs]
      exact Nat.add_lt_add_left (of_decide_eq_true rfl) _
    have hdecodes := hsound.decodes (s.input env .again).newId
    rw [pass, if_neg hne, hcall]
    dsimp only
    rw [hpass, hrecord]
    -- it decodes, because it was sent so; the call goes on, or it ends and another one is scheduled
    rcases s.conn.dispatchMessage_cases (K := K) (s.input env .again) with
      ⟨hnone, -⟩ | ⟨m, -, -, heq⟩ | ⟨m, b, p, flow, -, -, hflow, heq⟩
    · rw [hh, hf, hfront, hmiddle, hdata] at hnone
      exact absurd hdecodes (by rw [hnone]; exact Bool.false_ne_true)
    · rw [heq]
      exact .next [.msg header footer front middle data] h (.opened fs rfl) hunread hpart rfl rfl
        (by rw [hs]; exact State.noConfusion) hmeasure
    · rw [heq]
      rcases hflow with rfl | ⟨rfl, hlater⟩
      · exact .next [.msg header footer front middle data] h (.opened fs rfl) hunread hpart rfl rfl
          (by rw [hs]; exact State.noConfusion) hmeasure
      · refine .returns _ [.msg header footer front middle data] fs ?_ rfl rfl rfl ?_ ?_
        · exact {
            owes := hunread.symm ▸ .opened fs rfl
            sendable := fun f hf ↦ h.sendable f (List.mem_cons_of_mem _ hf)
            clear := Or.inr hpart
            short := Or.inl hpart }
        · cases hbuf : s.recv.buf with
          | nil => exact Or.inl rfl
          | cons x xs => exact Or.inr (hlater (by rw [input, hbuf]; rfl))
        · rw [← hunread] at hmeasure
          exact hmeasure

/-! ## The run

The loop ends because `measure` gets smaller with each pass that goes on, so a call of `do_process`
always returns; and what it leaves is again in the invariant, for the next call. -/

/-- One pass over a stream of frames. -/
theorem passed (maxPrefetch page : ℕ) {s : Reader β} {fs : List WireFrame} (env : Env)
    (h : Framed K flags s fs) :
    Passed K flags s fs (s.pass K flags maxPrefetch page env) := by
  have howes := h.owes
  generalize hunread : s.recv.unread = rest at howes
  cases howes with
  | opened fs hs => exact passed_opened h hs hunread
  | entered f fs hs => exact passed_entered h hs hunread
  | front header footer front middle data fs hs hh hfront hmiddle hdata =>
    exact passed_front h hs hh hfront hmiddle hdata hunread
  | middle header footer front middle data fs hs hh hfront hmiddle hdata =>
    exact passed_middle h hs hh hfront hmiddle hdata hunread
  | prepare header footer front middle data fs hs hh hfront hmiddle hdata =>
    exact passed_prepare h hs hh hfront hmiddle hdata hunread
  | data header footer front middle data rest fs hs hh hfront hmiddle hdata hleft hpieces =>
    exact passed_data h hs hh hfront hmiddle hdata hleft hpieces hunread
  | footer header footer front middle data fs hs hh hfront hmiddle hdata =>
    exact passed_footer h hs hh hfront hmiddle hdata hunread
  | dispatch header footer front middle data fs hs hh hf hfront hmiddle hdata =>
    exact passed_dispatch h hs hh hf hfront hmiddle hdata hunread


/-- Where `do_process` may leave a connection: it waits for a read, and what is prefetched will be looked
at. -/
def Settled (s : Reader β) : Prop :=
  s.wanted ≠ 0 ∧ (s.recv.buf = [] ∨ s.conn.evProcess = true)

/-- A call of `do_process` returns, with a part of the frames read. -/
theorem doProcess_reads (maxPrefetch page : ℕ) {s : Reader β} {fs : List WireFrame} {fuel : ℕ} (h : Framed K flags s fs)
    (env : ℕ → Env) (hfuel : s.measure < fuel) :
    ∃ s' read fs', doProcess K flags maxPrefetch page fuel env s = some s' ∧ Framed K flags s' fs' ∧
      read ++ fs' = fs ∧ s'.decoded = s.decoded ++ read ∧ s'.measure ≤ s.measure ∧ s'.Settled := by
  induction fuel generalizing s fs env with
  | zero => exact absurd hfuel (Nat.not_lt_zero _)
  | succ fuel ih =>
    have hpassed := passed maxPrefetch page (env 0) h
    rw [doProcess]
    generalize s.pass K flags maxPrefetch page (env 0) = o at hpassed ⊢
    cases hpassed with
    | waits s' hframed hdecoded hstate hbuf hwanted hmeasure =>
      refine ⟨s', [], fs, ?_, hframed, rfl, hdecoded.trans (List.append_nil _).symm, hmeasure, hwanted,
        Or.inl hbuf⟩
      rw [Option.bind_some, if_pos (Or.inr hstate)]
    | goes s' read fs' hframed hread hdecoded hstate hmeasure =>
      obtain ⟨s'', read', fs'', hrun, hframed', hread', hdecoded', hmeasure', hsettled⟩ :=
        ih hframed (fun n ↦ env (n + 1)) (by omega)
      refine ⟨s'', read ++ read', fs'', ?_, hframed', ?_, ?_, by omega, hsettled⟩
      · rw [Option.bind_some, if_neg (by simp [hstate]), hrun]
      · rw [List.append_assoc, hread', hread]
      · rw [hdecoded', hdecoded, List.append_assoc]
    | returns s' read fs' hframed hread hdecoded hstate hlater hmeasure =>
      refine ⟨s', read, fs', ?_, hframed, hread, hdecoded, hmeasure.le, ?_, hlater⟩
      · rw [Option.bind_some, if_pos (Or.inl rfl)]
      · rw [wanted, if_neg (by rw [hstate]; exact State.noConfusion), Conn.readCall, hstate]
        exact Nat.one_ne_zero

/-- The timer goes off. -/
theorem Framed.wake {s : Reader β} {fs : List WireFrame} (h : Framed K flags s fs) (timer : Bool) :
    Framed K flags (s.wake timer) fs := by
  have howes := h.owes
  rw [Reader.wake]
  split_ifs
  · refine ⟨?_, h.sendable, h.clear, h.short⟩
    dsimp only
    generalize s.recv.unread = rest at howes ⊢
    cases howes <;> constructor <;> assumption
  · exact h

/-- Calls of `do_process` return, with a part of the frames read. -/
theorem serve_reads (maxPrefetch page : ℕ) {s : Reader β} {fs : List WireFrame} {fuel : ℕ} (h : Framed K flags s fs)
    (hsettled : s.Settled) (calls : List Call) (hfuel : s.measure < fuel) :
    ∃ s' read fs', serve K flags maxPrefetch page fuel calls s = some s' ∧ Framed K flags s' fs' ∧
      read ++ fs' = fs ∧ s'.decoded = s.decoded ++ read ∧ s'.Settled := by
  induction calls generalizing s fs with
  | nil => exact ⟨s, [], fs, rfl, h, rfl, (List.append_nil _).symm, hsettled⟩
  | cons c cs ih =>
    have hwake : (s.wake c.timer).measure = s.measure := by
      rw [Reader.wake]
      split_ifs <;> rfl
    have hsame : (s.wake c.timer).decoded = s.decoded := by
      rw [Reader.wake]
      split_ifs <;> rfl
    obtain ⟨s', read, fs', hrun, hframed, hread, hdecoded, hmeasure, hsettled'⟩ :=
      doProcess_reads maxPrefetch page (h.wake c.timer) c.env
        (by rw [hwake]; exact hfuel)
    obtain ⟨s'', read', fs'', hrun', hframed', hread', hdecoded', hsettled''⟩ :=
      ih hframed hsettled' (by omega)
    refine ⟨s'', read ++ read', fs'', ?_, hframed', ?_, ?_, hsettled''⟩
    · rw [serve, hrun, Option.bind_some, hrun']
    · rw [List.append_assoc, hread', hread]
    · rw [hdecoded', hdecoded, hsame, List.append_assoc]

/-! ## Progress

A call of `do_process` that leaves the socket unread can only be one that finds nothing there. While a
connection is settled, its next pass has a target that is not full, and the pass takes at least one of
the bytes that are left, from the prefetch buffer or, where the kernel offers one, from the socket. The
later passes of the call hand nothing back, so that every call to which the kernel offers a byte makes
the rest of the stream shorter. -/

theorem readCall_pos {c : Conn β} {x : Conn.Target × ℕ} (h : c.readCall = some x) : 0 < x.2 := by
  rw [Conn.readCall] at h
  split at h <;> first | (cases h; decide) | cases h | skip
  all_goals
    split_ifs at h
    cases h
    exact Nat.pos_of_ne_zero (by tauto)

@[simp] theorem recv_record (s : Reader β) (bs : Bytes) : (s.record page bs).recv = s.recv := by
  rw [record]
  split <;> first | rfl | skip
  split_ifs <;> rfl

theorem recv_of_finish {s s' : Reader β} {o : Outcome β} {stop : Bool}
    (h : finish s o = some (s', stop)) : s'.recv = s.recv := by
  rw [finish] at h
  split at h <;> cases h <;> rfl

/-- The loop over the buffers of the data section takes what it can. -/
theorem ahead_readData (maxPrefetch : ℕ) (reads : ℕ → List ℕ) {n left : ℕ} {pieces : List ℕ}
    {recv : Recv} {x : Bytes × List ℕ × Recv} (hsum : pieces.sum = left) (hpos : ∀ p ∈ pieces, 0 < p)
    (hclear : recv.buf = [] ∨ recv.part = [])
    (hshort : recv.part = [] ∨ recv.part.length < pieces.headD 0)
    (h : readData maxPrefetch reads n pieces left recv = some x) :
    x.2.2.ahead ≤ recv.ahead ∧
      (left ≠ 0 → 0 < (reads n).headD 0 → 0 < recv.ahead → x.2.2.ahead < recv.ahead) := by
  induction pieces generalizing n left recv x with
  | nil =>
    rw [readData] at h
    split_ifs at h with hzero
    cases h
    exact ⟨le_rfl, fun hne ↦ absurd hzero hne⟩
  | cons p ps ih =>
    have hp : 0 < p := hpos p List.mem_cons_self
    rw [List.sum_cons] at hsum
    have hpart : recv.part.length < p := by
      rcases hshort with hnil | hlt
      · rw [hnil]
        exact hp
      · exact hlt
    have hreads := Recv.reads_readUntil maxPrefetch (reads n) hclear hpart
    have hfirst := Recv.ahead_readUntil maxPrefetch (reads n) hclear hpart
    rw [readData, if_neg (by omega), Nat.min_eq_left (by omega)] at h
    generalize recv.readUntil maxPrefetch p (reads n) = got at hreads hfirst h
    cases hreads with
    | again recv' hbuf hlt hall =>
      dsimp only at h
      split_ifs at h
      cases h
      exact ⟨hfirst.1, fun _ ↦ hfirst.2⟩
    | done bs recv' hlen hnil hall =>
      dsimp only at h
      rw [if_neg (by omega), Option.map_eq_some_iff] at h
      obtain ⟨y, hloop, rfl⟩ := h
      have hsum' : ps.sum = left - p := by omega
      have hrest := (ih hsum' (fun q hq ↦ hpos q (List.mem_cons_of_mem p hq)) (Or.inr hnil)
        (Or.inl hnil) hloop).1
      exact ⟨hrest.trans hfirst.1, fun _ hoffer hahead ↦ hrest.trans_lt (hfirst.2 hoffer hahead)⟩

/-- In the state that reads the data section, the buffers to fill make up what is to come. -/
theorem Framed.pieces_sum {s : Reader β} {fs : List WireFrame} (h : Framed K flags s fs)
    (hs : s.conn.state = .openMessageReadData) (hleft : s.conn.msgLeft ≠ 0) :
    s.pieces.sum = s.conn.msgLeft ∧ ∀ p ∈ s.pieces, 0 < p := by
  have howes := h.owes
  generalize s.recv.unread = rest at howes
  cases howes with
  | data _ _ _ _ _ rest _ _ _ _ _ _ hlen hpieces =>
    rw [hlen] at hleft ⊢
    exact hpieces.resolve_left fun hnil ↦ hleft (by rw [hnil]; rfl)
  | entered f _ hs' => cases f <;> exact State.noConfusion (hs.symm.trans hs')
  | front _ _ _ _ _ _ hs' | dispatch _ _ _ _ _ _ hs' =>
    rw [hs] at hs'
    exact absurd hs' (by decide)
  | opened _ hs' => exact absurd (hs.symm.trans hs') (by decide)
  | middle _ _ _ _ _ _ hs' | prepare _ _ _ _ _ _ hs' | footer _ _ _ _ _ _ hs' =>
    exact absurd (hs.symm.trans hs') (by decide)

/-- One pass takes what it can. -/
theorem ahead_of_pass {s s' : Reader β} {fs : List WireFrame} {env : Env} {stop : Bool}
    (h : Framed K flags s fs) (hpass : s.pass K flags maxPrefetch page env = some (s', stop)) :
    s'.recv.ahead ≤ s.recv.ahead ∧
      (s.wanted ≠ 0 → 0 < (env.reads 0).headD 0 → 0 < s.recv.ahead → s'.recv.ahead < s.recv.ahead) := by
  rw [pass] at hpass
  by_cases hs : s.conn.state = .openMessageReadData
  · rw [if_pos hs, Option.bind_eq_some_iff] at hpass
    obtain ⟨x, hdata, hpass⟩ := hpass
    rw [recv_of_finish hpass]
    dsimp only
    -- the one state that calls `read_until` in a loop, unless the data is complete
    by_cases hleft : s.conn.msgLeft = 0
    · have hsame : x = ([], s.pieces, s.recv) := by
        rw [hleft] at hdata
        cases hp : s.pieces with
        | nil =>
          rw [hp, readData, if_pos rfl] at hdata
          exact (Option.some_inj.mp hdata).symm
        | cons p ps =>
          rw [hp, readData, if_pos rfl] at hdata
          exact (Option.some_inj.mp hdata).symm
      have hwanted : s.wanted = 0 := by
        rw [wanted, if_pos hs, if_pos hleft]
      rw [hsame]
      exact ⟨le_rfl, fun hne ↦ absurd hwanted hne⟩
    · obtain ⟨hsum, hpos⟩ := h.pieces_sum hs hleft
      have hshort : s.recv.part = [] ∨ s.recv.part.length < s.pieces.headD 0 := by
        refine h.short.imp_right fun hlt ↦ ?_
        rwa [wanted, if_pos hs, if_neg hleft] at hlt
      have hloop := ahead_readData maxPrefetch env.reads hsum hpos h.clear hshort hdata
      exact ⟨hloop.1, fun _ ↦ hloop.2 hleft⟩
  · rw [if_neg hs] at hpass
    -- every other state calls it once or not at all
    cases hcall : s.conn.readCall with
    | none =>
      rw [hcall] at hpass
      have hwanted : s.wanted = 0 := by
        rw [wanted, if_neg hs, hcall]
        rfl
      rw [recv_of_finish hpass, recv_record]
      exact ⟨le_rfl, fun hne ↦ absurd hwanted hne⟩
    | some x =>
      obtain ⟨t, len⟩ := x
      have hwanted : s.wanted = len := by
        rw [wanted, if_neg hs, hcall]
        rfl
      have hpart : s.recv.part.length < len := by
        rcases h.short with hnil | hlt
        · rw [hnil]
          exact readCall_pos hcall
        · exact hwanted ▸ hlt
      have hread := Recv.ahead_readUntil maxPrefetch (env.reads 0) h.clear hpart
      rw [hcall] at hpass
      dsimp only at hpass
      split at hpass
      · cases hpass
      · rename_i missing recv hgot
        split_ifs at hpass
        rw [recv_of_finish hpass]
        rw [hgot] at hread
        exact ⟨hread.1, fun _ ↦ hread.2⟩
      · rename_i bs recv hgot
        rw [recv_of_finish hpass, recv_record]
        rw [hgot] at hread
        exact ⟨hread.1, fun _ ↦ hread.2⟩

/-- A call of `do_process` takes what it can. -/
theorem ahead_of_doProcess {s s' : Reader β} {fs : List WireFrame} {fuel : ℕ} {env : ℕ → Env}
    (h : Framed K flags s fs) (hrun : doProcess K flags maxPrefetch page fuel env s = some s') :
    s'.recv.ahead ≤ s.recv.ahead ∧
      (s.wanted ≠ 0 → 0 < ((env 0).reads 0).headD 0 → 0 < s.recv.ahead →
        s'.recv.ahead < s.recv.ahead) := by
  induction fuel generalizing s fs env with
  | zero => exact absurd hrun (by simp [doProcess])
  | succ fuel ih =>
    rw [doProcess, Option.bind_eq_some_iff] at hrun
    obtain ⟨⟨s₁, stop⟩, hpass, hrun⟩ := hrun
    have hfirst := ahead_of_pass h hpass
    have hpassed := passed maxPrefetch page (env 0) h
    rw [hpass] at hpassed
    dsimp only at hrun
    split_ifs at hrun with hstop
    · rw [← Option.some_inj.mp hrun]
      exact hfirst
    · cases hpassed with
      | waits _ _ _ hstate => exact absurd (Or.inr hstate) hstop
      | returns => exact absurd (Or.inl rfl) hstop
      | goes _ read fs' hframed =>
        have hrest := (ih hframed hrun).1
        exact ⟨hrest.trans hfirst.1, fun hwanted hoffer hahead ↦
          hrest.trans_lt (hfirst.2 hwanted hoffer hahead)⟩

/-- The first read of the call finds a byte in the socket, if there is one. -/
def Call.offers (c : Call) : Bool := decide (0 < ((c.env 0).reads 0).headD 0)

/-- Every call to which the kernel offers a byte takes one, until nothing is left. -/
theorem ahead_of_serve {s s' : Reader β} {fs : List WireFrame} {fuel : ℕ} {calls : List Call}
    (h : Framed K flags s fs) (hsettled : s.Settled) (hfuel : s.measure < fuel)
    (hrun : serve K flags maxPrefetch page fuel calls s = some s') :
    s'.recv.ahead ≤ s.recv.ahead - calls.countP Call.offers := by
  induction calls generalizing s fs with
  | nil =>
    cases hrun
    exact le_rfl
  | cons c cs ih =>
    have hwake : (s.wake c.timer).measure = s.measure ∧ (s.wake c.timer).wanted = s.wanted ∧
        (s.wake c.timer).recv = s.recv := by
      rw [Reader.wake]
      split_ifs <;> exact ⟨rfl, rfl, rfl⟩
    obtain ⟨hmeasure, hwanted, hrecv⟩ := hwake
    rw [serve, Option.bind_eq_some_iff] at hrun
    obtain ⟨s₁, hcall, hrun⟩ := hrun
    have htakes := ahead_of_doProcess (h.wake c.timer) hcall
    obtain ⟨s₂, -, fs', hcall', hframed, -, -, hless, hsettled'⟩ :=
      doProcess_reads maxPrefetch page (h.wake c.timer) c.env (hmeasure.symm ▸ hfuel)
    rw [hcall, Option.some_inj] at hcall'
    subst hcall'
    have hrest := ih hframed hsettled' (by omega) hrun
    rw [hwanted, hrecv] at htakes
    rw [List.countP_cons]
    split_ifs with hoffers
    · have hoffer := of_decide_eq_true hoffers
      by_cases hzero : s.recv.ahead = 0
      · omega
      · have hlt := htakes.2 hsettled.1 hoffer (Nat.pos_of_ne_zero hzero)
        omega
    · exact hrest.trans (Nat.sub_le_sub_right htakes.1 _)

theorem wanted_of_readCall {s : Reader β} (hne : s.conn.state ≠ .openMessageReadData) :
    s.wanted = (s.conn.readCall.map Prod.snd).getD 0 := by
  rw [wanted, if_neg hne]

/-- Whatever is wanted is still to come, unless the stream is at its end. -/
theorem Framed.wanted_le {s : Reader β} {fs : List WireFrame} (h : Framed K flags s fs) :
    s.wanted ≤ s.recv.unread.length ∨ fs = [] ∧ s.conn.state = .opened := by
  have howes := h.owes
  generalize hunread : s.recv.unread = rest at howes ⊢
  cases howes with
  | opened fs hs =>
    cases fs with
    | nil => exact Or.inr ⟨rfl, hs⟩
    | cons f fs =>
      rw [wanted_of_readCall (by rw [hs]; exact State.noConfusion), Conn.readCall, hs,
        WireFrame.stream_cons, WireFrame.bytes_eq]
      simp only [List.length_append, LittleEndian.length_encode, Option.map_some, Option.getD_some]
      omega
  | entered f fs hs =>
    apply Or.inl
    have hlen : s.wanted ≤ f.body.length := by
      cases f with
      | msg header footer front middle data =>
        have hheader := length_headerBytes header
        rw [wanted_of_readCall (by rw [hs]; exact State.noConfusion), Conn.readCall, hs,
          WireFrame.body, List.length_append, hheader]
        exact Nat.le_add_right 53 _
      | ack seq =>
        rw [wanted_of_readCall (by rw [hs]; exact State.noConfusion), Conn.readCall, hs]
        exact le_rfl
      | keepalive2 t =>
        rw [wanted_of_readCall (by rw [hs]; exact State.noConfusion), Conn.readCall, hs,
          WireFrame.body, length_timespecBytes]
        exact le_rfl
      | keepalive2Ack t =>
        rw [wanted_of_readCall (by rw [hs]; exact State.noConfusion), Conn.readCall, hs,
          WireFrame.body, length_timespecBytes]
        exact le_rfl
    rw [List.length_append]
    omega
  | front header footer front middle data fs hs hh _ _ _ =>
    have hsound := WireFrame.sound_of_sendable (h.sendable _ List.mem_cons_self)
    apply Or.inl
    -- the two states that only take from a throttle want nothing
    rcases hs with hs | hs | hs <;>
      rw [wanted_of_readCall (by rw [hs]; exact State.noConfusion), Conn.readCall, hs]
    · exact Nat.zero_le _
    · exact Nat.zero_le _
    · dsimp only
      rw [hh, hsound.frontLen, List.length_append]
      split_ifs
      · exact Nat.zero_le _
      · exact Nat.le_add_right ..
  | middle header footer front middle data fs hs hh _ _ _ =>
    have hsound := WireFrame.sound_of_sendable (h.sendable _ List.mem_cons_self)
    apply Or.inl
    rw [wanted_of_readCall (by rw [hs]; exact State.noConfusion), Conn.readCall, hs]
    dsimp only
    rw [hh, hsound.middleLen, List.length_append]
    split_ifs
    · exact Nat.zero_le _
    · exact Nat.le_add_right ..
  | prepare header footer front middle data fs hs _ _ _ _ =>
    apply Or.inl
    rw [wanted_of_readCall (by rw [hs]; exact State.noConfusion), Conn.readCall, hs]
    exact Nat.zero_le _
  | data header footer front middle data rest fs hs _ _ _ _ hleft hpieces =>
    apply Or.inl
    rw [wanted, if_pos hs]
    split_ifs with hzero
    · exact Nat.zero_le _
    · obtain ⟨hsum, -⟩ := hpieces.resolve_left fun hnil ↦ hzero (by rw [hleft, hnil]; rfl)
      have hhead : s.pieces.headD 0 ≤ s.pieces.sum := by
        cases s.pieces with
        | nil => exact le_rfl
        | cons p ps => exact (Nat.le_add_right p ps.sum).trans_eq List.sum_cons.symm
      rw [List.length_append]
      omega
  | footer header footer front middle data fs hs _ _ _ _ =>
    apply Or.inl
    have hfooter := length_footerBytes footer
    rw [wanted_of_readCall (by rw [hs]; exact State.noConfusion), Conn.readCall, hs,
      List.length_append, hfooter]
    exact Nat.le_add_right 21 _
  | dispatch header footer front middle data fs hs _ _ _ _ _ =>
    apply Or.inl
    rcases hs with hs | hs <;>
      rw [wanted_of_readCall (by rw [hs]; exact State.noConfusion), Conn.readCall, hs] <;>
      exact Nat.zero_le _

/-- When nothing is left of the stream, the last frame has been read to its end. -/
theorem Framed.finished {s : Reader β} {fs : List WireFrame} (h : Framed K flags s fs)
    (hwanted : s.wanted ≠ 0) (hunread : s.recv.unread = s.recv.part) :
    fs = [] ∧ s.conn.state = .opened ∧ s.recv.part = [] := by
  rcases h.wanted_le with hle | ⟨hfs, hs⟩
  · rw [hunread] at hle
    rcases h.short with hnil | hlt
    · rw [hnil] at hle
      exact absurd (Nat.le_zero.mp hle) hwanted
    · exact absurd hle (Nat.not_le.mpr hlt)
  · refine ⟨hfs, hs, ?_⟩
    rcases h.short with hnil | hlt
    · exact hnil
    · rw [wanted_of_readCall (by rw [hs]; exact State.noConfusion), Conn.readCall, hs] at hlt
      exact List.eq_nil_of_length_eq_zero (Nat.lt_one_iff.mp hlt)

/-! ## The round trip

The two halves together: the frames decoded are a first part of those written, and where the stream
has been read to its end they are all of them. -/

variable (K flags maxPrefetch page) in
/-- **The frames that are written are the frames that are read**, for every way the kernel cuts the stream
and interrupts the reader: each call of `do_process` returns, what has been read is always a first part of
what was written, and when the stream has been handed over and no call is due, everything has been read
and nothing is left over. As many calls to which the kernel offers a byte as the stream has bytes bring
the reader there. -/
theorem serve_frames (s : Reader β) (frames : List WireFrame)
    (hframes : ∀ f ∈ frames, f.Sendable K flags) (hstate : s.conn.state = .opened)
    (hrecv : s.recv = { wire := frames.flatMap WireFrame.bytes }) (hdecoded : s.decoded = []) :
    ∃ enough, ∀ fuel, enough ≤ fuel → ∀ calls, ∃ s',
      serve K flags maxPrefetch page fuel calls s = some s' ∧ s'.decoded <+: frames ∧
      (s'.recv.wire = [] → s'.conn.evProcess = false →
        s'.decoded = frames ∧ s'.conn.state = .opened ∧ s'.recv = {}) ∧
      ((frames.flatMap WireFrame.bytes).length ≤ calls.countP Call.offers →
        s'.decoded = frames ∧ s'.conn.state = .opened ∧ s'.recv = {}) := by
  have hunread : s.recv.unread = WireFrame.stream frames := by
    rw [hrecv]
    rfl
  have hframed : Framed K flags s frames := {
    owes := hunread ▸ .opened frames hstate
    sendable := hframes
    clear := Or.inl (by rw [hrecv])
    short := Or.inl (by rw [hrecv]) }
  have hsettled : s.Settled := by
    refine ⟨?_, Or.inl (by rw [hrecv])⟩
    rw [wanted_of_readCall (by rw [hstate]; exact State.noConfusion), Conn.readCall, hstate]
    exact Nat.one_ne_zero
  refine ⟨s.measure + 1, fun fuel hfuel calls ↦ ?_⟩
  obtain ⟨s', read, fs', hrun, hframed', hread, hdecoded', hwanted, hlater⟩ :=
    serve_reads maxPrefetch page hframed hsettled calls hfuel
  rw [hdecoded, List.nil_append] at hdecoded'
  have hfinished (hbuf : s'.recv.buf = []) (hwire : s'.recv.wire = []) :
      s'.decoded = frames ∧ s'.conn.state = .opened ∧ s'.recv = {} := by
    obtain ⟨hfs, hs', hpart⟩ := hframed'.finished hwanted (by rw [Recv.unread, hbuf, hwire]; simp)
    refine ⟨by rw [hdecoded', ← hread, hfs, List.append_nil], hs', ?_⟩
    rcases hrecv' : s'.recv with ⟨wire, buf, part⟩
    simp only [hrecv'] at hwire hbuf hpart
    rw [hwire, hbuf, hpart]
  refine ⟨s', hrun, ⟨fs', by rw [hdecoded', hread]⟩, fun hwire hprocess ↦ ?_, fun hcalls ↦ ?_⟩
  · refine hfinished (hlater.resolve_right fun hdue ↦ ?_) hwire
    rw [hprocess] at hdue
    exact absurd hdue Bool.false_ne_true
  · have hahead := ahead_of_serve hframed hsettled hfuel hrun
    have hstart : s.recv.ahead = (frames.flatMap WireFrame.bytes).length := by
      rw [hrecv, Recv.ahead, List.length_nil, Nat.zero_add]
    rw [hstart, Nat.sub_eq_zero_of_le hcalls, Nat.le_zero, Recv.ahead, Nat.add_eq_zero_iff,
      List.length_eq_zero_iff, List.length_eq_zero_iff] at hahead
    exact hfinished hahead.1 hahead.2

/-- A codec that knows one type of message. -/
def oneType : Codec :=
  { Codec.trivial with makeMessage := fun type ↦ if type = 1 then some 1 else none }

def bothCrcs : CrcFlags := { data := true, header := true }

/-- A message with all three sections, whose data begins two bytes before the end of a page. -/
def sampleMessage (type : ℕ) : Message :=
  { header := { seq := 1, type, dataOff := 4094 }, payload := [1], middle := [2], data := [3, 4, 5] }

/-- The sample message, encoded. -/
def sampleFrame (type : ℕ) : WireFrame := .ofMessage ((sampleMessage type).encode oneType bothCrcs 0)

/-- A connection in `STATE_OPEN` before a stream. -/
def start (frames : List WireFrame) : Reader Unit :=
  { conn := { state := .opened }, recv := { wire := frames.flatMap WireFrame.bytes } }

/-- The kernel hands over a few bytes at a time, and `do_process` stops after every message. -/
def trickle : Call :=
  { timer := false, env := fun _ ↦ { reads := fun n ↦ [n + 3, 1], budgetSpent := true } }

/-- A keepalive and its answer, a message and an acknowledgement. -/
def sampleFrames : List WireFrame :=
  [.keepalive2 { sec := 1 }, sampleFrame 1, .ack 7, .keepalive2Ack { nsec := 2 }]

/-- The stream is read to its end, a few bytes at a time. -/
theorem serve_frames_sample : ∃ enough, ∀ fuel, enough ≤ fuel → ∃ s',
    serve oneType bothCrcs 16 4096 fuel (List.replicate 120 trickle) (start sampleFrames) = some s' ∧
      s'.decoded = sampleFrames ∧ s'.conn.state = .opened ∧ s'.recv = {} := by
  have hmessage : (sampleFrame 1).Sendable oneType bothCrcs :=
    .msg (sampleMessage 1) 0 (by decide) (by decide) (by decide) (by decide) (by decide)
      ⟨1, rfl, Or.inr (by decide), fun _ ↦ rfl⟩
  have hframes : ∀ f ∈ sampleFrames, f.Sendable oneType bothCrcs := by
    simp only [sampleFrames, List.mem_cons, List.not_mem_nil, or_false, forall_eq_or_imp, forall_eq]
    exact ⟨.keepalive2 _ (by decide), hmessage, .ack _ (by decide), .keepalive2Ack _ (by decide)⟩
  have hcalls : (sampleFrames.flatMap WireFrame.bytes).length ≤
      (List.replicate 120 trickle).countP Call.offers := by
    decide +kernel
  obtain ⟨enough, hserve⟩ := serve_frames oneType bothCrcs 16 4096 (start sampleFrames) sampleFrames
    hframes rfl rfl rfl
  refine ⟨enough, fun fuel hfuel ↦ ?_⟩
  obtain ⟨s', hrun, -, -, hend⟩ := hserve fuel hfuel (List.replicate 120 trickle)
  exact ⟨s', hrun, hend hcalls⟩

/-- More fuel changes nothing. -/
theorem doProcess_add {s s' : Reader β} {fuel : ℕ} {env : ℕ → Env} (k : ℕ)
    (h : doProcess K flags maxPrefetch page fuel env s = some s') :
    doProcess K flags maxPrefetch page (fuel + k) env s = some s' := by
  induction fuel generalizing s env with
  | zero => exact absurd h (by simp [doProcess])
  | succ fuel ih =>
    rw [doProcess, Option.bind_eq_some_iff] at h
    obtain ⟨x, hpass, h⟩ := h
    rw [Nat.succ_add, doProcess, hpass, Option.bind_some]
    split_ifs at h ⊢ with hstop
    · exact h
    · exact ih h

/-- Every section of the message is short, but its type is not registered: the reader never gets past
it. -/
theorem serve_unknown_type :
    (sampleMessage 2).payload.length < 2 ^ 31 ∧ (sampleMessage 2).middle.length < 2 ^ 31 ∧
    (sampleMessage 2).data.length < 2 ^ 31 ∧
    ∀ fuel, serve oneType bothCrcs 16 4096 fuel
      [{ timer := false, env := fun _ ↦ { reads := fun _ ↦ [4096] } }] (start [sampleFrame 2]) = none := by
  refine ⟨by decide, by decide, by decide, fun fuel ↦ ?_⟩
  rw [serve, Option.bind_eq_none_iff]
  intro s' h
  have hnone : none = some s' := doProcess_add 16 h
  exact absurd hnone (by simp)

end Reader

end AsyncMessenger
