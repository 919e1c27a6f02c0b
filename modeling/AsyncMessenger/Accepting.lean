import AsyncMessenger.Framing
import AsyncMessenger.Lib.Run

/-!
# What a reader accepts

A peer may send anything. Whatever it sends, and however the kernel cuts it, a reader that has not
failed has taken its stream apart into well-formed frames: their bytes and the part of the next
frame that it has read are what it has taken from the stream, byte for byte, and what it has
delivered is among them.

## The invariant

`Took` says of each state which bytes of the current frame have been read, and what has been checked
of them: a tag leads to a state, a header has passed its checksum, a section has the length that the
header says. `Parsed` is the whole history: the frames that are behind, each of them `Accepted`, and
what the connection `Took` of the next one. The states are gone through as in the module on the
round trip, in the other direction: there the stream is known and the reader follows, here the
reader is known, and it says what the stream was.

## Uniqueness

The frames of a stream are determined by the stream (`accepted_unique`): the tag says what kind of
frame it is, and the header how long the sections are. So two readers of one stream never disagree,
and the reader of the frames that were written reads nothing else.
-/

namespace AsyncMessenger

theorem MsgHeader.bytes_ofBytes {bs : Bytes} (h : bs.length = 53) : (MsgHeader.ofBytes bs).bytes = bs :=
  @LittleEndian.encodeFields_decodeFields MsgHeader.layout bs h

theorem MsgHeader.fits_ofBytes (bs : Bytes) :
    LittleEndian.Fits MsgHeader.layout (MsgHeader.ofBytes bs).fields :=
  LittleEndian.fits_decodeFields MsgHeader.layout bs

theorem MsgFooter.bytes_ofBytes {bs : Bytes} (h : bs.length = 21) : (MsgFooter.ofBytes bs).bytes = bs :=
  @LittleEndian.encodeFields_decodeFields MsgFooter.layout bs h

theorem MsgFooter.fits_ofBytes (bs : Bytes) :
    LittleEndian.Fits MsgFooter.layout (MsgFooter.ofBytes bs).fields :=
  LittleEndian.fits_decodeFields MsgFooter.layout bs

theorem Timespec.bytes_ofBytes {bs : Bytes} (h : bs.length = 8) : (Timespec.ofBytes bs).bytes = bs :=
  @LittleEndian.encodeFields_decodeFields Timespec.layout bs h

theorem Timespec.fits_ofBytes (bs : Bytes) : LittleEndian.Fits Timespec.layout
    (Timespec.ofBytes bs).fields :=
  LittleEndian.fits_decodeFields Timespec.layout bs

namespace WireFrame

variable (K : Codec) (flags : CrcFlags)

/-- A header the reader goes on with. -/
def HeaderOk (header : MsgHeader) : Prop :=
  LittleEndian.Fits MsgHeader.layout header.fields ∧
    (flags.header = true → Message.headerCrc K header = header.crc)

/-- What the reader checks of a message. -/
structure Checked (header : MsgHeader) (footer : MsgFooter) (front middle data : Bytes) : Prop where
  headerOk : HeaderOk K flags header
  frontLen : front.length = header.frontLen
  middleLen : middle.length = header.middleLen
  dataLen : data.length = header.dataLen
  footerFits : LittleEndian.Fits MsgFooter.layout footer.fields
  complete : footer.flags &&& MsgFooter.complete ≠ 0
  decodes : ∃ id, (Message.decodeMessage K flags id header footer front middle data).isSome

/-- A frame that can come out of a stream. -/
def Accepted : WireFrame → Prop
  | .msg header footer front middle data => Checked K flags header footer front middle data
  | .ack seq => seq < 2 ^ 64
  | .keepalive2 t => LittleEndian.Fits Timespec.layout t.fields
  | .keepalive2Ack t => LittleEndian.Fits Timespec.layout t.fields

/-- What a frame has of a message. -/
def content : WireFrame → Option (MsgHeader × Bytes × Bytes × Bytes)
  | .msg header _ front middle data => some (header, front, middle, data)
  | _ => none

end WireFrame

/-- The same of a message. -/
def Message.content (m : Message) : MsgHeader × Bytes × Bytes × Bytes :=
  (m.header, m.payload, m.middle, m.data)

namespace Reader

variable {β : Type} (K : Codec) (flags : CrcFlags)

/-- The bytes of a message that is being read, up to its footer. -/
def begun (c : Conn β) : Bytes :=
  LittleEndian.encode 1 Tag.msg ++ (c.currentHeader.bytes ++ (c.front ++ (c.middle ++ c.data)))

/-- The bytes of the current frame that a connection has read: in every state, which they are, and
what it knows of them. -/
inductive Took (c : Conn β) (pieces : List ℕ) : Bytes → Prop
  | opened (hs : c.state = .opened) : Took c pieces []
  | entered (t : ℕ) (ht : t < 256) (hs : Conn.stateOfTag t = some c.state) :
    Took c pieces (LittleEndian.encode 1 t)
  | header (hs : c.state = .openMessageThrottleMessage ∨ c.state = .openMessageThrottleBytes ∨
        c.state = .openMessageReadFront)
      (hh : WireFrame.HeaderOk K flags c.currentHeader) (hfront : c.front = []) (hmiddle : c.middle = [])
      (hdata : c.data = []) :
    Took c pieces (begun c)
  | front (hs : c.state = .openMessageReadMiddle) (hh : WireFrame.HeaderOk K flags c.currentHeader)
      (hfront : c.front.length = c.currentHeader.frontLen) (hmiddle : c.middle = []) (hdata : c.data = []) :
    Took c pieces (begun c)
  | middle (hs : c.state = .openMessageReadDataPrepare) (hh : WireFrame.HeaderOk K flags c.currentHeader)
      (hfront : c.front.length = c.currentHeader.frontLen)
      (hmiddle : c.middle.length = c.currentHeader.middleLen) (hdata : c.data = []) :
    Took c pieces (begun c)
  | data (hs : c.state = .openMessageReadData) (hh : WireFrame.HeaderOk K flags c.currentHeader)
      (hfront : c.front.length = c.currentHeader.frontLen)
      (hmiddle : c.middle.length = c.currentHeader.middleLen)
      (hdata : c.data.length + c.msgLeft = c.currentHeader.dataLen)
      (hpieces : c.msgLeft = 0 ∨ pieces.sum = c.msgLeft ∧ ∀ p ∈ pieces, 0 < p) :
    Took c pieces (begun c)
  | footer (hs : c.state = .openMessageReadFooter) (hh : WireFrame.HeaderOk K flags c.currentHeader)
      (hfront : c.front.length = c.currentHeader.frontLen)
      (hmiddle : c.middle.length = c.currentHeader.middleLen)
      (hdata : c.data.length = c.currentHeader.dataLen) :
    Took c pieces (begun c)
  | whole (hs : c.state = .openMessageThrottleDispatchSize ∨ c.state = .openMessageDispatch)
      (hh : WireFrame.HeaderOk K flags c.currentHeader)
      (hfront : c.front.length = c.currentHeader.frontLen)
      (hmiddle : c.middle.length = c.currentHeader.middleLen)
      (hdata : c.data.length = c.currentHeader.dataLen)
      (hf : LittleEndian.Fits MsgFooter.layout c.currentFooter.fields)
      (hcomplete : c.currentFooter.flags &&& MsgFooter.complete ≠ 0) :
    Took c pieces (begun c ++ c.currentFooter.bytes)

/-- Messages that have been delivered, among the frames that have been read. -/
def Among (old delivered : List Message) (decoded : List WireFrame) : Prop :=
  ∃ ms, delivered = old ++ ms ∧ (ms.map Message.content).Sublist (decoded.filterMap WireFrame.content)

/-- The reader has taken its stream apart into frames. -/
structure Parsed (stream : Bytes) (old : List Message) (s : Reader β) : Prop where
  took : ∃ bs, Took K flags s.conn s.pieces bs ∧
    WireFrame.stream s.decoded ++ (bs ++ s.recv.unread) = stream
  accepted : ∀ f ∈ s.decoded, f.Accepted K flags
  among : Among old s.conn.delivered s.decoded
  clear : s.recv.buf = [] ∨ s.recv.part = []
  short : s.recv.part = [] ∨ s.recv.part.length < s.wanted

variable {K flags} {maxPrefetch page : ℕ} {stream : Bytes} {old : List Message}

theorem Among.append {delivered : List Message} {decoded fs : List WireFrame}
    (h : Among old delivered decoded) :
    Among old delivered (decoded ++ fs) := by
  obtain ⟨ms, heq, hsub⟩ := h
  refine ⟨ms, heq, hsub.trans ?_⟩
  rw [List.filterMap_append]
  exact List.sublist_append_left ..

theorem Among.deliver {delivered : List Message} {decoded : List WireFrame} {m : Message} {f : WireFrame}
    (h : Among old delivered decoded) (hf : f.content = some m.content) :
    Among old (delivered ++ [m]) (decoded ++ [f]) := by
  obtain ⟨ms, heq, hsub⟩ := h
  refine ⟨ms ++ [m], by rw [heq, List.append_assoc], ?_⟩
  rw [List.map_append, List.filterMap_append, List.map_singleton, List.filterMap_cons_some hf, List.filterMap_nil]
  exact hsub.append (List.Sublist.refl _)

/-- In a state without a read nothing of a target has been filled. -/
theorem Parsed.part_eq_nil {s : Reader β} (h : Parsed K flags stream old s) (hwanted : s.wanted = 0) :
    s.recv.part = [] := by
  rcases h.short with hnil | hlt
  · exact hnil
  · exact absurd hlt (by omega)

/-- The pass has gone on, and `fs` has been read to its end. -/
theorem Parsed.next (fs : List WireFrame) {bs bs' : Bytes} {s s' : Reader β}
    (h : Parsed K flags stream old s) (hstream : WireFrame.stream s.decoded ++ (bs ++ s.recv.unread) = stream)
    (htook : Took K flags s'.conn s'.pieces bs')
    (hbytes : WireFrame.stream fs ++ (bs' ++ s'.recv.unread) = bs ++ s.recv.unread)
    (hpart : s'.recv.part = []) (hdecoded : s'.decoded = s.decoded ++ fs)
    (hfs : ∀ f ∈ fs, f.Accepted K flags) (hamong : Among old s'.conn.delivered s'.decoded) :
    Parsed K flags stream old s' where
  took := by
    refine ⟨bs', htook, ?_⟩
    rw [hdecoded, WireFrame.stream, List.flatMap_append, List.append_assoc]
    rw [← hstream, ← hbytes]
    rfl
  accepted f hf := by
    rw [hdecoded] at hf
    exact (List.mem_append.mp hf).elim (h.accepted f) (hfs f)
  among := hamong
  clear := Or.inr hpart
  short := Or.inl hpart

/-! ## One read

The one place where the bytes that a read takes from the stream are added to those of the current
frame. -/

/-- A pass that reads `len` bytes: it keeps what has come, or goes on with them. -/
theorem pass_of_call {s : Reader β} {env : Env} {x : Reader β × Bool} {t : Conn.Target} {len : ℕ}
    (h : Parsed K flags stream old s) (hopen : s.conn.state.isOpen = true)
    (hstate : s.conn.state ≠ .openMessageReadData) (hcall : s.conn.readCall = some (t, len))
    (hpos : 0 < len) (hpass : s.pass K flags maxPrefetch page env = some x) :
    Parsed K flags stream old x.1 ∨
    ∃ bs recv, bs.length = len ∧ recv.part = [] ∧ bs ++ recv.unread = s.recv.unread ∧
      finish ({ s with recv }.record page bs) (s.conn.processOpen K flags
        (({ s with recv } : Reader β).input env (.done (s.conn.chunkOf bs)))) = some x := by
  have hwanted (recv : Recv) : ({ s with recv } : Reader β).wanted = len := by
    rw [wanted, if_neg hstate, hcall]
    rfl
  have hpart : s.recv.part.length < len := by
    rcases h.short with hnil | hlt
    · rw [hnil]
      exact hpos
    · exact hwanted s.recv ▸ hlt
  have hreads := Recv.reads_readUntil maxPrefetch (env.reads 0) h.clear hpart
  rw [pass, if_neg hstate, hcall] at hpass
  dsimp only at hpass
  generalize s.recv.readUntil maxPrefetch len (env.reads 0) = got at hreads hpass
  cases hreads with
  | done bs recv hbs hnil hall => exact Or.inr ⟨bs, recv, hbs, hnil, hall, hpass⟩
  | again recv hbuf hlt hall =>
    left
    dsimp only at hpass
    split_ifs at hpass
    rw [processOpen_again hopen hcall rfl] at hpass
    obtain rfl := Option.some_inj.mp hpass
    obtain ⟨bs, htook, hstream⟩ := h.took
    exact {
      took := ⟨bs, htook, by rw [← hstream, ← hall]⟩
      accepted := h.accepted
      among := h.among
      clear := Or.inl hbuf
      short := Or.inr (hwanted recv ▸ hlt) }

/-- A pass without a read. -/
theorem pass_of_none {s : Reader β} {env : Env} {x : Reader β × Bool} (hcall : s.conn.readCall = none)
    (hstate : s.conn.state ≠ .openMessageReadData) (hpass : s.pass K flags maxPrefetch page env = some x) :
    finish (s.record page []) (s.conn.processOpen K flags (s.input env .again)) = some x := by
  rw [pass, if_neg hstate, hcall] at hpass
  exact hpass

/-! ## The states

A pass completes the current item, checks it and goes on, or keeps what has come of it. The item is
a tag, a header, a section, a footer; the data section is kept buffer by buffer. -/

/-- The tag. -/
theorem parsed_opened {s : Reader β} {env : Env} {x : Reader β × Bool} (h : Parsed K flags stream old s)
    (hs : s.conn.state = .opened) (hstream : WireFrame.stream s.decoded ++ ([] ++ s.recv.unread) = stream)
    (hpass : s.pass K flags maxPrefetch page env = some x) : Parsed K flags stream old x.1 := by
  have hcall : s.conn.readCall = some (.tag, 1) := by
    rw [Conn.readCall, hs]
  rcases pass_of_call h (by rw [hs]; rfl) (by rw [hs]; exact State.noConfusion) hcall Nat.one_pos hpass with
    hwaits | ⟨bs, recv, hlen, hpart, hall, hfinish⟩
  · exact hwaits
  · have hchunk : s.conn.chunkOf bs = .tag (LittleEndian.decode bs) := by
      rw [Conn.chunkOf, hs]
    rw [hchunk] at hfinish
    simp only [record, hs, Conn.processOpen, Conn.onRead, input] at hfinish
    cases htag : Conn.stateOfTag (LittleEndian.decode bs) with
    | none =>
      rw [htag] at hfinish
      exact absurd hfinish (Option.some_ne_none _).symm
    | some st =>
      rw [htag] at hfinish
      obtain rfl := Option.some_inj.mp hfinish
      have hlt := LittleEndian.decode_lt bs
      rw [hlen] at hlt
      refine h.next [] hstream (.entered (LittleEndian.decode bs) hlt htag) ?_ hpart (List.append_nil _).symm
        (List.forall_mem_nil _) h.among
      rw [LittleEndian.encode_decode_of_length hlen]
      exact hall

/-- A frame of a fixed size. -/
theorem parsed_single {s : Reader β} {env : Env} {x : Reader β × Bool} {t : ℕ} {tgt : Conn.Target}
    {len : ℕ}
    (h : Parsed K flags stream old s)
    (hstream : WireFrame.stream s.decoded ++ (LittleEndian.encode 1 t ++ s.recv.unread) = stream)
    (hopen : s.conn.state.isOpen = true) (hne : s.conn.state ≠ .openMessageReadData)
    (hcall : s.conn.readCall = some (tgt, len)) (hpos : 0 < len)
    (hdone : ∀ bs recv, bs.length = len →
      finish ({ s with recv }.record page bs) (s.conn.processOpen K flags
        (({ s with recv } : Reader β).input env (.done (s.conn.chunkOf bs)))) = some x →
      ∃ f : WireFrame, f.Accepted K flags ∧ f.bytes = LittleEndian.encode 1 t ++ bs ∧
        x.1.conn.state = .opened ∧ x.1.conn.delivered = s.conn.delivered ∧ x.1.recv = recv ∧
        x.1.decoded = s.decoded ++ [f])
    (hpass : s.pass K flags maxPrefetch page env = some x) : Parsed K flags stream old x.1 := by
  rcases pass_of_call h hopen hne hcall hpos hpass with hwaits | ⟨bs, recv, hlen, hpart, hall, hfinish⟩
  · exact hwaits
  · obtain ⟨f, hf, hbytes, hstate, hdelivered, hrecv, hdecoded⟩ := hdone bs recv hlen hfinish
    refine h.next [f] hstream (.opened hstate) ?_ (hrecv ▸ hpart) hdecoded ?_ ?_
    · rw [WireFrame.stream, List.flatMap_singleton, hbytes, hrecv, List.nil_append, List.append_assoc, hall]
    · rintro g hg
      rwa [List.mem_singleton.mp hg]
    · rw [hdelivered, hdecoded]
      exact h.among.append

theorem stateOfTag_cases {t : ℕ} {st : State} (h : Conn.stateOfTag t = some st) :
    t = Tag.keepalive2 ∧ st = .openKeepalive2 ∨ t = Tag.keepalive2Ack ∧ st = .openKeepalive2Ack ∨
      t = Tag.ack ∧ st = .openTagAck ∨ t = Tag.msg ∧ st = .openMessageHeader ∨
      t = Tag.close ∧ st = .openTagClose := by
  rw [Conn.stateOfTag] at h
  split_ifs at h <;> rw [Option.some_inj] at h <;> subst h <;> simp_all

/-- The header. -/
theorem parsed_header {s : Reader β} {env : Env} {x : Reader β × Bool} (h : Parsed K flags stream old s)
    (hs : s.conn.state = .openMessageHeader)
    (hstream : WireFrame.stream s.decoded ++ (LittleEndian.encode 1 Tag.msg ++ s.recv.unread) = stream)
    (hpass : s.pass K flags maxPrefetch page env = some x) : Parsed K flags stream old x.1 := by
  have hcall : s.conn.readCall = some (.stateBuffer, 53) := by
    rw [Conn.readCall, hs]
    rfl
  rcases pass_of_call h (by rw [hs]; rfl) (by rw [hs]; exact State.noConfusion) hcall (by decide) hpass with
    hwaits | ⟨bs, recv, hlen, hpart, hall, hfinish⟩
  · exact hwaits
  · have hchunk : s.conn.chunkOf bs = .header (MsgHeader.ofBytes bs) := by
      rw [Conn.chunkOf, hs]
    rw [hchunk] at hfinish
    simp only [record, hs, Conn.processOpen, Conn.onRead, input, Conn.gotHeader] at hfinish
    split_ifs at hfinish with hbad
    · exact absurd hfinish (Option.some_ne_none _).symm
    · obtain rfl := Option.some_inj.mp hfinish
      have hok : WireFrame.HeaderOk K flags (MsgHeader.ofBytes bs) :=
        ⟨MsgHeader.fits_ofBytes bs, fun hflag ↦ not_not.mp fun hne ↦ hbad ⟨hflag, hne⟩⟩
      refine h.next [] hstream (.header (Or.inl rfl) hok rfl rfl rfl) ?_ hpart (List.append_nil _).symm
        (List.forall_mem_nil _) h.among
      simp only [begun, Conn.goto, MsgHeader.bytes_ofBytes hlen, List.append_nil, List.append_assoc]
      rw [← hall]
      rfl

/-- What follows a tag. -/
theorem parsed_entered {s : Reader β} {env : Env} {x : Reader β × Bool} {t : ℕ}
    (h : Parsed K flags stream old s) (htag : Conn.stateOfTag t = some s.conn.state)
    (hstream : WireFrame.stream s.decoded ++ (LittleEndian.encode 1 t ++ s.recv.unread) = stream)
    (hpass : s.pass K flags maxPrefetch page env = some x) : Parsed K flags stream old x.1 := by
  rcases stateOfTag_cases htag with ⟨rfl, hs⟩ | ⟨rfl, hs⟩ | ⟨rfl, hs⟩ | ⟨rfl, hs⟩ | ⟨rfl, hs⟩
  · -- a keepalive
    refine parsed_single h hstream (by rw [hs]; rfl) (by rw [hs]; exact State.noConfusion)
      (by rw [Conn.readCall, hs]) (by decide) (fun bs recv hlen hfinish ↦ ?_) hpass
    simp only [record, hs, Conn.processOpen, Conn.onRead, input, Conn.startWrite_eq] at hfinish
    obtain rfl := Option.some_inj.mp hfinish
    refine ⟨.keepalive2 (Timespec.ofBytes bs), Timespec.fits_ofBytes bs, ?_, rfl, rfl, rfl, rfl⟩
    rw [WireFrame.bytes, sendKeepaliveOrAck, Timespec.bytes_ofBytes hlen]
    rfl
  · -- the answer to a keepalive
    refine parsed_single h hstream (by rw [hs]; rfl) (by rw [hs]; exact State.noConfusion)
      (by rw [Conn.readCall, hs]) (by decide) (fun bs recv hlen hfinish ↦ ?_) hpass
    simp only [record, hs, Conn.processOpen, Conn.onRead, input] at hfinish
    obtain rfl := Option.some_inj.mp hfinish
    refine ⟨.keepalive2Ack (Timespec.ofBytes bs), Timespec.fits_ofBytes bs, ?_, rfl, rfl, rfl, rfl⟩
    rw [WireFrame.bytes, sendKeepaliveOrAck, Timespec.bytes_ofBytes hlen]
    rfl
  · -- an acknowledgement
    refine parsed_single h hstream (by rw [hs]; rfl) (by rw [hs]; exact State.noConfusion)
      (by rw [Conn.readCall, hs]) (by decide) (fun bs recv hlen hfinish ↦ ?_) hpass
    simp only [record, hs, Conn.processOpen, Conn.onRead, input, Conn.chunkOf] at hfinish
    obtain rfl := Option.some_inj.mp hfinish
    have hlt := LittleEndian.decode_lt bs
    rw [hlen] at hlt
    refine ⟨.ack (LittleEndian.decode bs), hlt, ?_, rfl, rfl, rfl, rfl⟩
    rw [WireFrame.bytes, writeAck, LittleEndian.encode_decode_of_length hlen]
  · -- a message
    exact parsed_header h hs hstream hpass
  · -- the other side has closed the session
    have hfinish := pass_of_none (by rw [Conn.readCall, hs]) (by rw [hs]; exact State.noConfusion) hpass
    simp only [record, hs, Conn.processOpen] at hfinish
    exact absurd hfinish (Option.some_ne_none _).symm

/-- A pass that takes no bytes. -/
theorem parsed_goto {s : Reader β} {env : Env} {x : Reader β × Bool} {bs : Bytes}
    (h : Parsed K flags stream old s)
    (hstream : WireFrame.stream s.decoded ++ (bs ++ s.recv.unread) = stream)
    (hne : s.conn.state ≠ .openMessageReadData) (hcall : s.conn.readCall = none)
    (hdone : finish (s.record page []) (s.conn.processOpen K flags (s.input env .again)) = some x →
      ∃ c pieces bs', x.1 = { s with conn := c, pieces } ∧ Took K flags c pieces bs' ∧ bs' = bs ∧
        c.delivered = s.conn.delivered)
    (hpass : s.pass K flags maxPrefetch page env = some x) : Parsed K flags stream old x.1 := by
  have hwanted : s.wanted = 0 := by
    rw [wanted, if_neg hne, hcall]
    rfl
  obtain ⟨c, pieces, bs', hx, htook, rfl, hdelivered⟩ := hdone (pass_of_none hcall hne hpass)
  rw [hx]
  refine h.next [] hstream htook rfl (h.part_eq_nil hwanted) (List.append_nil _).symm (List.forall_mem_nil _) ?_
  exact hdelivered ▸ h.among

/-- A pass that takes the next item. -/
theorem parsed_item {s : Reader β} {env : Env} {x : Reader β × Bool} {bs : Bytes}
    {tgt : Conn.Target} {len : ℕ}
    (h : Parsed K flags stream old s) (hstream : WireFrame.stream s.decoded ++ (bs ++ s.recv.unread) = stream)
    (hopen : s.conn.state.isOpen = true) (hne : s.conn.state ≠ .openMessageReadData)
    (hcall : s.conn.readCall = some (tgt, len)) (hpos : 0 < len)
    (hdone : ∀ (item : Bytes) (recv : Recv), item.length = len →
      finish ({ s with recv }.record page item) (s.conn.processOpen K flags
        (({ s with recv } : Reader β).input env (.done (s.conn.chunkOf item)))) = some x →
      ∃ c, x.1 = { s with recv, conn := c } ∧ Took K flags c s.pieces (bs ++ item) ∧
        c.delivered = s.conn.delivered)
    (hpass : s.pass K flags maxPrefetch page env = some x) : Parsed K flags stream old x.1 := by
  rcases pass_of_call h hopen hne hcall hpos hpass with hwaits | ⟨item, recv, hlen, hpart, hall, hfinish⟩
  · exact hwaits
  · obtain ⟨c, hx, htook, hdelivered⟩ := hdone item recv hlen hfinish
    rw [hx]
    refine h.next [] hstream htook ?_ hpart (List.append_nil _).symm (List.forall_mem_nil _)
      (hdelivered ▸ h.among)
    change bs ++ item ++ recv.unread = bs ++ s.recv.unread
    rw [List.append_assoc, hall]

/-- The states before the front, and the front. -/
theorem parsed_front {s : Reader β} {env : Env} {x : Reader β × Bool} (h : Parsed K flags stream old s)
    (hs : s.conn.state = .openMessageThrottleMessage ∨ s.conn.state = .openMessageThrottleBytes ∨
      s.conn.state = .openMessageReadFront)
    (hh : WireFrame.HeaderOk K flags s.conn.currentHeader) (hfront : s.conn.front = [])
    (hmiddle : s.conn.middle = []) (hdata : s.conn.data = [])
    (hstream : WireFrame.stream s.decoded ++ (begun s.conn ++ s.recv.unread) = stream)
    (hpass : s.pass K flags maxPrefetch page env = some x) : Parsed K flags stream old x.1 := by
  rcases hs with hs | hs | hs
  · -- the throttle for the number of messages
    refine parsed_goto h hstream (by rw [hs]; exact State.noConfusion) (by rw [Conn.readCall, hs])
      (fun hfinish ↦ ?_) hpass
    simp only [record, hs, Conn.processOpen] at hfinish
    obtain rfl := Option.some_inj.mp hfinish
    exact ⟨_, _, _, rfl, .header (Or.inr (Or.inl rfl)) hh hfront hmiddle hdata, rfl, rfl⟩
  · -- the throttle for their bytes
    refine parsed_goto h hstream (by rw [hs]; exact State.noConfusion) (by rw [Conn.readCall, hs])
      (fun hfinish ↦ ?_) hpass
    simp only [record, hs, Conn.processOpen] at hfinish
    obtain rfl := Option.some_inj.mp hfinish
    exact ⟨_, _, _, rfl, .header (Or.inr (Or.inr rfl)) hh hfront hmiddle hdata, rfl, rfl⟩
  · by_cases hzero : s.conn.currentHeader.frontLen = 0
    · -- an empty section takes no read
      refine parsed_goto h hstream (by rw [hs]; exact State.noConfusion)
        (by simp only [Conn.readCall, hs, if_pos hzero]) (fun hfinish ↦ ?_) hpass
      simp only [record, hs, Conn.processOpen, if_pos hzero] at hfinish
      obtain rfl := Option.some_inj.mp hfinish
      have hlen : s.conn.front.length = s.conn.currentHeader.frontLen := by
        rw [hfront, hzero, List.length_nil]
      exact ⟨_, _, _, rfl, .front rfl hh hlen hmiddle hdata, rfl, rfl⟩
    · refine parsed_item h hstream (by rw [hs]; rfl) (by rw [hs]; exact State.noConfusion)
        (by simp only [Conn.readCall, hs, if_neg hzero]; rfl) (Nat.pos_of_ne_zero hzero)
        (fun item recv hlen hfinish ↦ ?_) hpass
      simp only [record, hs, Conn.processOpen, if_neg hzero, Conn.onRead, input, Conn.chunkOf] at hfinish
      obtain rfl := Option.some_inj.mp hfinish
      refine ⟨{ s.conn with front := item, state := .openMessageReadMiddle }, rfl, ?_, rfl⟩
      have htook : Took K flags { s.conn with front := item, state := .openMessageReadMiddle } s.pieces
          (begun { s.conn with front := item, state := .openMessageReadMiddle }) :=
        .front rfl hh hlen hmiddle hdata
      simp only [begun, hfront, hmiddle, hdata, List.append_nil, List.append_assoc] at htook ⊢
      exact htook

/-- The middle. -/
theorem parsed_middle {s : Reader β} {env : Env} {x : Reader β × Bool} (h : Parsed K flags stream old s)
    (hs : s.conn.state = .openMessageReadMiddle) (hh : WireFrame.HeaderOk K flags s.conn.currentHeader)
    (hfront : s.conn.front.length = s.conn.currentHeader.frontLen) (hmiddle : s.conn.middle = [])
    (hdata : s.conn.data = [])
    (hstream : WireFrame.stream s.decoded ++ (begun s.conn ++ s.recv.unread) = stream)
    (hpass : s.pass K flags maxPrefetch page env = some x) : Parsed K flags stream old x.1 := by
  by_cases hzero : s.conn.currentHeader.middleLen = 0
  · refine parsed_goto h hstream (by rw [hs]; exact State.noConfusion)
      (by simp only [Conn.readCall, hs, if_pos hzero]) (fun hfinish ↦ ?_) hpass
    simp only [record, hs, Conn.processOpen, if_pos hzero] at hfinish
    obtain rfl := Option.some_inj.mp hfinish
    have hlen : s.conn.middle.length = s.conn.currentHeader.middleLen := by
      rw [hmiddle, hzero, List.length_nil]
    exact ⟨_, _, _, rfl, .middle rfl hh hfront hlen hdata, rfl, rfl⟩
  · refine parsed_item h hstream (by rw [hs]; rfl) (by rw [hs]; exact State.noConfusion)
      (by simp only [Conn.readCall, hs, if_neg hzero]; rfl) (Nat.pos_of_ne_zero hzero)
      (fun item recv hlen hfinish ↦ ?_) hpass
    simp only [record, hs, Conn.processOpen, if_neg hzero, Conn.onRead, input, Conn.chunkOf] at hfinish
    obtain rfl := Option.some_inj.mp hfinish
    refine ⟨{ s.conn with middle := item, state := .openMessageReadDataPrepare }, rfl, ?_, rfl⟩
    have htook : Took K flags { s.conn with middle := item, state := .openMessageReadDataPrepare } s.pieces
        (begun { s.conn with middle := item, state := .openMessageReadDataPrepare }) :=
      .middle rfl hh hfront hlen hdata
    simp only [begun, hmiddle, hdata, List.append_nil, List.append_assoc] at htook ⊢
    exact htook

/-- The buffers for the data are allocated. -/
theorem parsed_prepare {s : Reader β} {env : Env} {x : Reader β × Bool} (h : Parsed K flags stream old s)
    (hs : s.conn.state = .openMessageReadDataPrepare) (hh : WireFrame.HeaderOk K flags s.conn.currentHeader)
    (hfront : s.conn.front.length = s.conn.currentHeader.frontLen)
    (hmiddle : s.conn.middle.length = s.conn.currentHeader.middleLen) (hdata : s.conn.data = [])
    (hstream : WireFrame.stream s.decoded ++ (begun s.conn ++ s.recv.unread) = stream)
    (hpass : s.pass K flags maxPrefetch page env = some x) : Parsed K flags stream old x.1 := by
  have hleft : s.conn.data.length + s.conn.currentHeader.dataLen = s.conn.currentHeader.dataLen := by
    rw [hdata, List.length_nil, Nat.zero_add]
  refine parsed_goto h hstream (by rw [hs]; exact State.noConfusion) (by rw [Conn.readCall, hs])
    (fun hfinish ↦ ?_) hpass
  simp only [record, hs, Conn.processOpen] at hfinish
  by_cases hzero : s.conn.currentHeader.dataLen = 0
  · rw [if_pos hzero] at hfinish
    obtain rfl := Option.some_inj.mp hfinish
    exact ⟨_, _, _, rfl, .data rfl hh hfront hmiddle hleft (Or.inl hzero), rfl, rfl⟩
  · rw [if_neg hzero] at hfinish
    obtain rfl := Option.some_inj.mp hfinish
    exact ⟨_, _, _, rfl, .data rfl hh hfront hmiddle hleft
      (Or.inr (allocateMsgData_pieces page _ (Nat.pos_of_ne_zero hzero))), rfl, rfl⟩

/-- What the loop over the buffers of the data section takes. -/
theorem readData_takes (maxPrefetch : ℕ) (reads : ℕ → List ℕ) {n left : ℕ} {pieces pieces' : List ℕ}
    {bs : Bytes} {recv recv' : Recv} (hsum : pieces.sum = left) (hpos : ∀ p ∈ pieces, 0 < p)
    (hclear : recv.buf = [] ∨ recv.part = [])
    (hshort : recv.part = [] ∨ recv.part.length < pieces.headD 0)
    (h : readData maxPrefetch reads n pieces left recv = some (bs, pieces', recv')) :
    bs ++ recv'.unread = recv.unread ∧ bs.length + pieces'.sum = left ∧ (∀ p ∈ pieces', 0 < p) ∧
      (recv'.buf = [] ∨ recv'.part = []) ∧ (recv'.part = [] ∨ recv'.part.length < pieces'.headD 0) := by
  induction pieces generalizing n left recv bs with
  | nil =>
    have hnil : recv.part = [] := by
      rcases hshort with hnil | hlt
      · exact hnil
      · exact absurd hlt (Nat.not_lt_zero _)
    have hzero : left = 0 := hsum.symm
    rw [readData, if_pos hzero] at h
    obtain ⟨rfl, rfl, rfl⟩ := h
    exact ⟨rfl, hsum, hpos, Or.inr hnil, Or.inl hnil⟩
  | cons p ps ih =>
    have hp : 0 < p := hpos p List.mem_cons_self
    rw [List.sum_cons] at hsum
    have hpart : recv.part.length < p := by
      rcases hshort with hnil | hlt
      · rw [hnil]
        exact hp
      · exact hlt
    have hreads := Recv.reads_readUntil maxPrefetch (reads n) hclear hpart
    rw [readData, if_neg (by omega), Nat.min_eq_left (by omega)] at h
    generalize recv.readUntil maxPrefetch p (reads n) = got at hreads h
    -- a piece that is not complete ends the loop, and what has come of it stays
    cases hreads with
    | again recv'' hbuf hlt hall =>
      dsimp only at h
      split_ifs at h
      obtain ⟨rfl, rfl, rfl⟩ := h
      exact ⟨hall, (Nat.zero_add _).trans (List.sum_cons.trans hsum), hpos, Or.inl hbuf, Or.inr hlt⟩
    | done bs' recv'' hlen hnil hall =>
      dsimp only at h
      rw [if_neg (by omega), Option.map_eq_some_iff] at h
      obtain ⟨⟨bs'', pieces'', recv'''⟩, hrest, hy⟩ := h
      obtain ⟨rfl, rfl, rfl⟩ := hy
      obtain ⟨hall', hlen', hpos', hclear', hshort'⟩ := @ih (n + 1) (left - p) bs'' recv'' (by omega)
        (fun q hq ↦ hpos q (List.mem_cons_of_mem p hq)) (Or.inr hnil) (Or.inl hnil) hrest
      refine ⟨?_, ?_, hpos', hclear', hshort'⟩
      · rw [List.append_assoc, hall', hall]
      · rw [List.length_append]
        dsimp only at hlen' ⊢
        omega

/-- The data. -/
theorem parsed_data {s : Reader β} {env : Env} {x : Reader β × Bool} (h : Parsed K flags stream old s)
    (hs : s.conn.state = .openMessageReadData) (hh : WireFrame.HeaderOk K flags s.conn.currentHeader)
    (hfront : s.conn.front.length = s.conn.currentHeader.frontLen)
    (hmiddle : s.conn.middle.length = s.conn.currentHeader.middleLen)
    (hdata : s.conn.data.length + s.conn.msgLeft = s.conn.currentHeader.dataLen)
    (hpieces : s.conn.msgLeft = 0 ∨ s.pieces.sum = s.conn.msgLeft ∧ ∀ p ∈ s.pieces, 0 < p)
    (hstream : WireFrame.stream s.decoded ++ (begun s.conn ++ s.recv.unread) = stream)
    (hpass : s.pass K flags maxPrefetch page env = some x) : Parsed K flags stream old x.1 := by
  have hwanted : s.wanted = if s.conn.msgLeft = 0 then 0 else s.pieces.headD 0 := by
    rw [wanted, if_pos hs]
  rw [pass, if_pos hs, Option.bind_eq_some_iff] at hpass
  obtain ⟨⟨bs, pieces, recv⟩, hread, hfinish⟩ := hpass
  by_cases hzero : s.conn.msgLeft = 0
  · -- there is no data, or it has all come
    have hpart : s.recv.part = [] := h.part_eq_nil (by rw [hwanted, if_pos hzero])
    have hnothing : bs = [] ∧ recv = s.recv := by
      rw [hzero] at hread
      cases hp : s.pieces with
      | nil =>
        rw [hp, readData, if_pos rfl] at hread
        obtain ⟨rfl, -, rfl⟩ := hread
        exact ⟨rfl, rfl⟩
      | cons p ps =>
        rw [hp, readData, if_pos rfl] at hread
        obtain ⟨rfl, -, rfl⟩ := hread
        exact ⟨rfl, rfl⟩
    obtain ⟨rfl, rfl⟩ := hnothing
    simp only [Conn.processOpen, hs, if_pos hzero] at hfinish
    obtain rfl := Option.some_inj.mp hfinish
    have hall : s.conn.data.length = s.conn.currentHeader.dataLen := by
      rw [← hdata, hzero, Nat.add_zero]
    exact h.next [] hstream (.footer rfl hh hfront hmiddle hall) rfl hpart (List.append_nil _).symm
      (List.forall_mem_nil _) h.among
  · obtain ⟨hsum, hpos⟩ := hpieces.resolve_left hzero
    rw [if_neg hzero] at hwanted
    obtain ⟨hall, hlen, hpos', hclear, hshort⟩ :=
      readData_takes maxPrefetch env.reads hsum hpos h.clear (hwanted ▸ h.short) hread
    by_cases hnil : bs = []
    · subst hnil
      simp only [Conn.processOpen, hs, if_neg hzero, Conn.onRead, input, if_true] at hfinish
      obtain rfl := Option.some_inj.mp hfinish
      refine ⟨⟨begun s.conn, .data hs hh hfront hmiddle hdata (Or.inr ⟨?_, hpos'⟩), ?_⟩, h.accepted, h.among,
        hclear, ?_⟩
      · exact (Nat.zero_add _).symm.trans hlen
      · rw [← hstream, ← hall]
        rfl
      · rcases hshort with hpart | hlt
        · exact Or.inl hpart
        · right
          rw [wanted, if_pos hs, if_neg hzero]
          exact hlt
    · simp only [Conn.processOpen, hs, if_neg hzero, Conn.onRead, input, if_neg hnil, Conn.gotData] at hfinish
      obtain rfl := Option.some_inj.mp hfinish
      have hcame : (s.conn.data ++ bs).length + (s.conn.msgLeft - bs.length) = s.conn.currentHeader.dataLen := by
        rw [List.length_append]
        omega
      have hbegun (st : State) :
          begun { s.conn with data := s.conn.data ++ bs, msgLeft := s.conn.msgLeft - bs.length, state := st } =
            begun s.conn ++ bs := by
        simp only [begun, List.append_assoc]
      have hstream' : WireFrame.stream s.decoded ++ (begun s.conn ++ bs ++ recv.unread) = stream := by
        rw [← hstream, ← hall, List.append_assoc]
      by_cases hleft : s.conn.msgLeft - bs.length = 0
      · -- the last piece is full
        rw [if_pos hleft]
        have hpart : recv.part = [] := by
          rcases hshort with hpart | hlt
          · exact hpart
          · cases pieces with
            | nil => exact absurd hlt (Nat.not_lt_zero _)
            | cons p ps =>
              have hp := hpos' p List.mem_cons_self
              rw [List.sum_cons] at hlen
              omega
        rw [hleft, Nat.add_zero] at hcame
        refine ⟨⟨_, .footer rfl hh hfront hmiddle hcame, ?_⟩, h.accepted, h.among, hclear, Or.inl hpart⟩
        exact (congrArg (WireFrame.stream s.decoded ++ · ) (congrArg (· ++ recv.unread) (hbegun _))).trans hstream'
      · rw [if_neg hleft]
        have hsum' : pieces.sum = s.conn.msgLeft - bs.length := by omega
        refine ⟨⟨_, .data rfl hh hfront hmiddle hcame (Or.inr ⟨hsum', hpos'⟩), ?_⟩, h.accepted, h.among, hclear, ?_⟩
        · exact (congrArg (WireFrame.stream s.decoded ++ · ) (congrArg (· ++ recv.unread) (hbegun _))).trans hstream'
        · rcases hshort with hpart | hlt
          · exact Or.inl hpart
          · right
            exact hlt.trans_eq ((if_pos rfl).trans (if_neg hleft)).symm

/-- The footer. -/
theorem parsed_footer {s : Reader β} {env : Env} {x : Reader β × Bool} (h : Parsed K flags stream old s)
    (hs : s.conn.state = .openMessageReadFooter) (hh : WireFrame.HeaderOk K flags s.conn.currentHeader)
    (hfront : s.conn.front.length = s.conn.currentHeader.frontLen)
    (hmiddle : s.conn.middle.length = s.conn.currentHeader.middleLen)
    (hdata : s.conn.data.length = s.conn.currentHeader.dataLen)
    (hstream : WireFrame.stream s.decoded ++ (begun s.conn ++ s.recv.unread) = stream)
    (hpass : s.pass K flags maxPrefetch page env = some x) : Parsed K flags stream old x.1 := by
  have hcall : s.conn.readCall = some (.stateBuffer, 21) := by
    rw [Conn.readCall, hs]
    rfl
  refine parsed_item h hstream (by rw [hs]; rfl) (by rw [hs]; exact State.noConfusion) hcall (by decide)
    (fun item recv hlen hfinish ↦ ?_) hpass
  simp only [record, hs, Conn.processOpen, Conn.onRead, input, Conn.chunkOf, Conn.gotFooter] at hfinish
  split_ifs at hfinish with haborted
  · exact absurd hfinish (Option.some_ne_none _).symm
  · obtain rfl := Option.some_inj.mp hfinish
    refine ⟨{ s.conn with
      currentFooter := MsgFooter.ofBytes item, state := .openMessageThrottleDispatchSize }, rfl, ?_, rfl⟩
    have htook : Took K flags { s.conn with
        currentFooter := MsgFooter.ofBytes item, state := .openMessageThrottleDispatchSize } s.pieces
        (begun s.conn ++ (MsgFooter.ofBytes item).bytes) :=
      .whole (Or.inl rfl) hh hfront hmiddle hdata (MsgFooter.fits_ofBytes item) haborted
    rw [MsgFooter.bytes_ofBytes hlen] at htook
    exact htook

/-- The message is complete. -/
theorem parsed_dispatch {s : Reader β} {env : Env} {x : Reader β × Bool}
    (h : Parsed K flags stream old s)
    (hs : s.conn.state = .openMessageThrottleDispatchSize ∨ s.conn.state = .openMessageDispatch)
    (hh : WireFrame.HeaderOk K flags s.conn.currentHeader)
    (hfront : s.conn.front.length = s.conn.currentHeader.frontLen)
    (hmiddle : s.conn.middle.length = s.conn.currentHeader.middleLen)
    (hdata : s.conn.data.length = s.conn.currentHeader.dataLen)
    (hf : LittleEndian.Fits MsgFooter.layout s.conn.currentFooter.fields)
    (hcomplete : s.conn.currentFooter.flags &&& MsgFooter.complete ≠ 0)
    (hstream : WireFrame.stream s.decoded ++ (begun s.conn ++ s.conn.currentFooter.bytes ++ s.recv.unread) =
      stream)
    (hpass : s.pass K flags maxPrefetch page env = some x) : Parsed K flags stream old x.1 := by
  rcases hs with hs | hs
  · refine parsed_goto h hstream (by rw [hs]; exact State.noConfusion) (by rw [Conn.readCall, hs])
      (fun hfinish ↦ ?_) hpass
    simp only [record, hs, Conn.processOpen] at hfinish
    obtain rfl := Option.some_inj.mp hfinish
    exact ⟨_, _, _, rfl, .whole (Or.inr rfl) hh hfront hmiddle hdata hf hcomplete, rfl, rfl⟩
  · have hne : s.conn.state ≠ .openMessageReadData := by
      rw [hs]
      exact State.noConfusion
    have hcall : s.conn.readCall = none := by
      rw [Conn.readCall, hs]
    have hpart : s.recv.part = [] := by
      apply h.part_eq_nil
      rw [wanted, if_neg hne, hcall]
      rfl
    have hfinish := pass_of_none hcall hne hpass
    have hrecord : s.record page [] = { s with
        decoded := s.decoded ++ [.msg s.conn.currentHeader s.conn.currentFooter s.conn.front s.conn.middle
          s.conn.data] } := by
      simp only [record, hs]
    have hdispatch : s.conn.processOpen K flags (s.input env .again) =
        s.conn.dispatchMessage K flags (s.input env .again) := by
      simp only [Conn.processOpen, hs]
    rw [hrecord, hdispatch] at hfinish
    -- a message that decodes has passed every check
    have hfs (m : Message) (hm : Message.decodeMessage K flags env.newId s.conn.currentHeader
        s.conn.currentFooter s.conn.front s.conn.middle s.conn.data = some m) :
        ∀ f ∈ [WireFrame.msg s.conn.currentHeader s.conn.currentFooter s.conn.front s.conn.middle s.conn.data],
          f.Accepted K flags := by
      rintro f hmem
      rw [List.mem_singleton.mp hmem]
      exact ⟨hh, hfront, hmiddle, hdata, hf, hcomplete, env.newId, by rw [hm]; rfl⟩
    have hbytes : WireFrame.stream
        [.msg s.conn.currentHeader s.conn.currentFooter s.conn.front s.conn.middle s.conn.data] ++
          ([] ++ s.recv.unread) = begun s.conn ++ s.conn.currentFooter.bytes ++ s.recv.unread := by
      rw [WireFrame.stream, List.flatMap_singleton, WireFrame.bytes, writeMessage, begun, List.nil_append]
      simp only [List.append_assoc]
    rcases @Conn.dispatchMessage_cases β K flags s.conn (s.input env .again) with
      ⟨-, heq⟩ | ⟨m, hm, -, heq⟩ | ⟨m, b, p, flow, hm, -, hflow, heq⟩
    · rw [heq] at hfinish
      exact absurd hfinish (Option.some_ne_none _).symm
    · rw [heq] at hfinish
      obtain rfl := Option.some_inj.mp hfinish
      exact h.next [.msg s.conn.currentHeader s.conn.currentFooter s.conn.front s.conn.middle s.conn.data]
        hstream (.opened rfl) hbytes hpart rfl (hfs m hm) h.among.append
    · have hx : ∃ flag, x = ({ s with
          conn := { s.conn with
            state := .opened, inSeq := m.getSeq, delivered := s.conn.delivered ++ [m], evWrite := b, evProcess := p }
          decoded := s.decoded ++ [.msg s.conn.currentHeader s.conn.currentFooter s.conn.front s.conn.middle
            s.conn.data] }, flag) := by
        rw [heq] at hfinish
        rcases hflow with rfl | ⟨rfl, -⟩ <;> exact ⟨_, (Option.some_inj.mp hfinish).symm⟩
      obtain ⟨flag, rfl⟩ := hx
      have hcontent : (WireFrame.msg s.conn.currentHeader s.conn.currentFooter s.conn.front s.conn.middle
          s.conn.data).content = some m.content := by
        obtain ⟨hheader, hpayload, hmid, hdat⟩ := Message.header_of_decodeMessage K flags hm
        rw [Message.content, hheader, hpayload, hmid, hdat]
        rfl
      exact h.next [.msg s.conn.currentHeader s.conn.currentFooter s.conn.front s.conn.middle s.conn.data]
        hstream (.opened rfl) hbytes hpart rfl (hfs m hm) (h.among.deliver hcontent)

/-- Every pass that does not fail keeps it so. -/
theorem Parsed.pass {s : Reader β} {env : Env} {x : Reader β × Bool} (h : Parsed K flags stream old s)
    (hpass : s.pass K flags maxPrefetch page env = some x) : Parsed K flags stream old x.1 := by
  obtain ⟨bs, htook, hstream⟩ := h.took
  cases htook with
  | opened hs => exact parsed_opened h hs hstream hpass
  | entered t ht hs => exact parsed_entered h hs hstream hpass
  | header hs hh hfront hmiddle hdata => exact parsed_front h hs hh hfront hmiddle hdata hstream hpass
  | front hs hh hfront hmiddle hdata => exact parsed_middle h hs hh hfront hmiddle hdata hstream hpass
  | middle hs hh hfront hmiddle hdata => exact parsed_prepare h hs hh hfront hmiddle hdata hstream hpass
  | data hs hh hfront hmiddle hdata hpieces =>
    exact parsed_data h hs hh hfront hmiddle hdata hpieces hstream hpass
  | footer hs hh hfront hmiddle hdata => exact parsed_footer h hs hh hfront hmiddle hdata hstream hpass
  | whole hs hh hfront hmiddle hdata hf hcomplete =>
    exact parsed_dispatch h hs hh hfront hmiddle hdata hf hcomplete hstream hpass

theorem Parsed.wake {s : Reader β} (h : Parsed K flags stream old s) (timer : Bool) :
    Parsed K flags stream old (s.wake timer) := by
  rw [Reader.wake]
  split_ifs
  · obtain ⟨bs, htook, hstream⟩ := h.took
    refine ⟨⟨bs, ?_, hstream⟩, h.accepted, h.among, h.clear, h.short⟩
    cases htook with
    | opened hs => exact .opened hs
    | entered t ht hs => exact .entered t ht hs
    | header hs hh hfront hmiddle hdata => exact .header hs hh hfront hmiddle hdata
    | front hs hh hfront hmiddle hdata => exact .front hs hh hfront hmiddle hdata
    | middle hs hh hfront hmiddle hdata => exact .middle hs hh hfront hmiddle hdata
    | data hs hh hfront hmiddle hdata hpieces => exact .data hs hh hfront hmiddle hdata hpieces
    | footer hs hh hfront hmiddle hdata => exact .footer hs hh hfront hmiddle hdata
    | whole hs hh hfront hmiddle hdata hf hcomplete => exact .whole hs hh hfront hmiddle hdata hf hcomplete
  · exact h

end Reader

/-! ## Two readers of one stream

Of two ways to begin to take a stream apart one continues the other, since at each frame there is
only one way. The runs are those of passes and timers, of which calls of `do_process` are made. -/

namespace WireFrame

variable {K : Codec} {flags : CrcFlags}

theorem checked_unique {header header' : MsgHeader} {footer footer' : MsgFooter}
    {front front' middle middle' data data' rest rest' : Bytes}
    (h : Checked K flags header footer front middle data)
    (h' : Checked K flags header' footer' front' middle' data')
    (heq : header.bytes ++ (front ++ (middle ++ (data ++ footer.bytes))) ++ rest =
      header'.bytes ++ (front' ++ (middle' ++ (data' ++ footer'.bytes))) ++ rest') :
    msg header footer front middle data = msg header' footer' front' middle' data' ∧ rest = rest' := by
  simp only [List.append_assoc] at heq
  obtain ⟨hheader, hsections⟩ := List.append_inj heq
    ((Reader.length_headerBytes header).trans (Reader.length_headerBytes header').symm)
  have hsame : header = header' := by
    rw [← MsgHeader.ofBytes_bytes h.headerOk.1, hheader, MsgHeader.ofBytes_bytes h'.headerOk.1]
  subst hsame
  obtain ⟨rfl, hmiddle⟩ := List.append_inj hsections (h.frontLen.trans h'.frontLen.symm)
  obtain ⟨rfl, hdata⟩ := List.append_inj hmiddle (h.middleLen.trans h'.middleLen.symm)
  obtain ⟨rfl, hend⟩ := List.append_inj hdata (h.dataLen.trans h'.dataLen.symm)
  obtain ⟨hfooter, rfl⟩ := List.append_inj hend
    ((Reader.length_footerBytes footer).trans (Reader.length_footerBytes footer').symm)
  have hsame : footer = footer' := by
    rw [← MsgFooter.ofBytes_bytes h.footerFits, hfooter, MsgFooter.ofBytes_bytes h'.footerFits]
  rw [hsame]
  exact ⟨rfl, rfl⟩

/-- An accepted frame is all that the first bytes of a stream can be. -/
theorem accepted_unique {f g : WireFrame} {rest rest' : Bytes} (hf : f.Accepted K flags)
    (hg : g.Accepted K flags) (h : f.bytes ++ rest = g.bytes ++ rest') : f = g ∧ rest = rest' := by
  rw [bytes_eq, bytes_eq, List.append_assoc, List.append_assoc] at h
  obtain ⟨htag, hbody⟩ := List.append_inj h (by simp)
  have htags : f.tag = g.tag := by
    rw [← decode_tag f, htag, decode_tag g]
  have htimespec {t t' : Timespec} (ht : LittleEndian.Fits Timespec.layout t.fields)
      (ht' : LittleEndian.Fits Timespec.layout t'.fields) (heq : t.bytes ++ rest = t'.bytes ++ rest') :
      t = t' ∧ rest = rest' := by
    obtain ⟨hbytes, hrest⟩ := List.append_inj heq rfl
    rw [← Timespec.ofBytes_bytes ht, hbytes, Timespec.ofBytes_bytes ht']
    exact ⟨rfl, hrest⟩
  cases f with
  | msg header footer front middle data =>
    cases g with
    | msg header' footer' front' middle' data' => exact checked_unique hf hg hbody
    | _ => exact absurd htags (of_decide_eq_false rfl)
  | ack seq =>
    cases g with
    | ack seq' =>
      obtain ⟨hbytes, hrest⟩ := List.append_inj hbody (by simp [body])
      have hseq : seq = seq' := by
        rw [← LittleEndian.decode_encode_of_lt (k := 8) hf, ← LittleEndian.decode_encode_of_lt (k := 8) hg]
        exact congrArg LittleEndian.decode hbytes
      rw [hseq]
      exact ⟨rfl, hrest⟩
    | _ => exact absurd htags (of_decide_eq_false rfl)
  | keepalive2 t =>
    cases g with
    | keepalive2 t' =>
      obtain ⟨rfl, hrest⟩ := htimespec hf hg hbody
      exact ⟨rfl, hrest⟩
    | _ => exact absurd htags (of_decide_eq_false rfl)
  | keepalive2Ack t =>
    cases g with
    | keepalive2Ack t' =>
      obtain ⟨rfl, hrest⟩ := htimespec hf hg hbody
      exact ⟨rfl, hrest⟩
    | _ => exact absurd htags (of_decide_eq_false rfl)

/-- Of two ways to begin to take a stream apart one continues the other. -/
theorem prefix_or_prefix {fs gs : List WireFrame} {rest rest' : Bytes}
    (hfs : ∀ f ∈ fs, f.Accepted K flags)
    (hgs : ∀ g ∈ gs, g.Accepted K flags) (h : stream fs ++ rest = stream gs ++ rest') :
    (∃ more, gs = fs ++ more ∧ rest = stream more ++ rest') ∨ ∃ more, fs = gs ++ more ∧ rest' = stream more ++ rest := by
  induction fs generalizing gs with
  | nil => exact Or.inl ⟨gs, rfl, h⟩
  | cons f fs ih =>
    cases gs with
    | nil => exact Or.inr ⟨f :: fs, rfl, h.symm⟩
    | cons g gs =>
      rw [stream_cons, stream_cons, List.append_assoc, List.append_assoc] at h
      obtain ⟨rfl, hrest⟩ := accepted_unique (hfs f List.mem_cons_self) (hgs g List.mem_cons_self) h
      rcases ih (fun f hf ↦ hfs f (List.mem_cons_of_mem _ hf)) (fun g hg ↦ hgs g (List.mem_cons_of_mem _ hg))
        hrest with ⟨more, rfl, hmore⟩ | ⟨more, rfl, hmore⟩
      · exact Or.inl ⟨more, rfl, hmore⟩
      · exact Or.inr ⟨more, rfl, hmore⟩

end WireFrame

namespace Reader

variable {β : Type} (K : Codec) (flags : CrcFlags) (maxPrefetch page : ℕ)

/-- A pass of `do_process` with what it meets, or the timer. -/
inductive Turn
  | pass (env : Env)
  | timer

/-- One turn; `none` is a failure. -/
def turn (s : Reader β) : Turn → Option (Reader β)
  | .pass env => (s.pass K flags maxPrefetch page env).map Prod.fst
  | .timer => some (s.wake true)

variable {K flags maxPrefetch page}

/-- A call of `do_process` is a run. -/
theorem exists_turns_of_doProcess {fuel : ℕ} {env : ℕ → Env} {s s' : Reader β}
    (h : doProcess K flags maxPrefetch page fuel env s = some s') :
    ∃ turns, Run.exec (turn K flags maxPrefetch page) s turns = some s' := by
  induction fuel generalizing s env with
  | zero => exact nomatch h
  | succ fuel ih =>
    rw [doProcess, Option.bind_eq_some_iff] at h
    obtain ⟨x, hpass, hrest⟩ := h
    have hturn : s.turn K flags maxPrefetch page (.pass (env 0)) = some x.1 := by
      rw [turn, hpass, Option.map_some]
    split_ifs at hrest
    · obtain rfl := Option.some_inj.mp hrest
      exact ⟨[.pass (env 0)], by rw [Run.exec_cons, hturn]; rfl⟩
    · obtain ⟨turns, hturns⟩ := ih hrest
      exact ⟨.pass (env 0) :: turns, by rw [Run.exec_cons, hturn, Option.bind_some, hturns]⟩

/-- So are calls one after the other. -/
theorem exists_turns_of_serve {fuel : ℕ} {calls : List Call} {s s' : Reader β}
    (h : serve K flags maxPrefetch page fuel calls s = some s') :
    ∃ turns, Run.exec (turn K flags maxPrefetch page) s turns = some s' := by
  induction calls generalizing s with
  | nil => exact ⟨[], h⟩
  | cons c cs ih =>
    rw [serve, Option.bind_eq_some_iff] at h
    obtain ⟨t, hcall, hrest⟩ := h
    obtain ⟨before, hbefore⟩ : ∃ before,
        Run.exec (turn K flags maxPrefetch page) s before = some (s.wake c.timer) := by
      cases c.timer with
      | true => exact ⟨[.timer], rfl⟩
      | false => exact ⟨[], rfl⟩
    obtain ⟨turns, hturns⟩ := exists_turns_of_doProcess hcall
    obtain ⟨turns', hturns'⟩ := ih hrest
    refine ⟨before ++ (turns ++ turns'), ?_⟩
    rw [Run.exec_append, hbefore, Option.bind_some, Run.exec_append, hturns, Option.bind_some, hturns']

theorem Parsed.turn {stream : Bytes} {old : List Message} {s s' : Reader β} {t : Turn}
    (h : Parsed K flags stream old s) (hturn : s.turn K flags maxPrefetch page t = some s') :
    Parsed K flags stream old s' := by
  cases t with
  | pass env =>
    rw [Reader.turn, Option.map_eq_some_iff] at hturn
    obtain ⟨x, hpass, rfl⟩ := hturn
    exact h.pass hpass
  | timer =>
    obtain rfl := Option.some_inj.mp hturn
    exact h.wake true

theorem parsed_start {s : Reader β} {stream : Bytes} (hstate : s.conn.state = .opened)
    (hrecv : s.recv = { wire := stream }) (hdecoded : s.decoded = []) :
    Parsed K flags stream s.conn.delivered s where
  took := by
    refine ⟨[], .opened hstate, ?_⟩
    rw [hrecv, hdecoded]
    rfl
  accepted f hf := by
    rw [hdecoded] at hf
    exact absurd hf List.not_mem_nil
  among := ⟨[], (List.append_nil _).symm, List.nil_sublist _⟩
  clear := Or.inl (by rw [hrecv])
  short := Or.inl (by rw [hrecv])

/-- Calls of `do_process` one after the other keep to what has been parsed as well. -/
theorem parsed_of_serve {stream : Bytes} {s s' : Reader β} {fuel : ℕ} {calls : List Call}
    (hstate : s.conn.state = .opened) (hrecv : s.recv = { wire := stream }) (hdecoded : s.decoded = [])
    (hserve : serve K flags maxPrefetch page fuel calls s = some s') :
    Parsed K flags stream s.conn.delivered s' := by
  obtain ⟨turns, hrun⟩ := exists_turns_of_serve hserve
  exact Run.invariant (fun _ _ _ h ht ↦ h.turn ht) (parsed_start hstate hrecv hdecoded) hrun

/-- **What is accepted is well formed**, whatever the peer sends and however the kernel cuts it. In
every run that has not failed the stream begins with the frames that have been read, then come what
has been read of the next frame and what is unread; the frames have passed every check, and what has
been delivered is among them, in order. And the frames do not depend on the run: any other beginning
of the stream that consists of such frames is a part of them or has them as a part. -/
theorem decoded_wellFormed (s : Reader β) (stream : Bytes) (hstate : s.conn.state = .opened)
    (hrecv : s.recv = { wire := stream }) (hdecoded : s.decoded = []) {turns : List Turn} {s' : Reader β}
    (hrun : Run.exec (turn K flags maxPrefetch page) s turns = some s') :
    (∃ bs, Took K flags s'.conn s'.pieces bs ∧
      WireFrame.stream s'.decoded ++ (bs ++ s'.recv.unread) = stream) ∧
    (∀ f ∈ s'.decoded, f.Accepted K flags) ∧ Among s.conn.delivered s'.conn.delivered s'.decoded ∧
    ∀ (frames : List WireFrame) (rest : Bytes), (∀ f ∈ frames, f.Accepted K flags) →
      stream = WireFrame.stream frames ++ rest → s'.decoded <+: frames ∨ frames <+: s'.decoded := by
  have h : Parsed K flags stream s.conn.delivered s' :=
    Run.invariant (fun _ _ _ h ht ↦ h.turn ht) (parsed_start hstate hrecv hdecoded) hrun
  refine ⟨h.took, h.accepted, h.among, fun frames rest hframes hstream ↦ ?_⟩
  obtain ⟨bs, -, htook⟩ := h.took
  rcases WireFrame.prefix_or_prefix h.accepted hframes (htook.trans hstream) with ⟨more, heq, -⟩ | ⟨more, heq, -⟩
  · exact Or.inl ⟨more, heq.symm⟩
  · exact Or.inr ⟨more, heq.symm⟩

/-- An ACK, a message, and a tag that means nothing. -/
def strayStream : Bytes := (WireFrame.ack 7).bytes ++ ((sampleFrame 1).bytes ++ [9])

/-- A pass for which everything has arrived. -/
def wholeRead : Turn := .pass { reads := fun _ ↦ [4096] }

theorem decoded_wellFormed_stray :
    ∃ s' : Reader Unit, Run.exec (turn oneType bothCrcs 4096 4096)
        { conn := { state := .opened }, recv := { wire := strayStream } } (List.replicate 13 wholeRead) = some s' ∧
      s'.decoded = [.ack 7, sampleFrame 1] ∧ Among [] s'.conn.delivered s'.decoded ∧
      ∀ (frames : List WireFrame) (rest : Bytes), (∀ f ∈ frames, f.Accepted oneType bothCrcs) →
        strayStream = WireFrame.stream frames ++ rest → s'.decoded <+: frames ∨ frames <+: s'.decoded := by
  have hend : ((Run.exec (turn oneType bothCrcs 4096 4096) ({
      conn := { state := .opened }, recv := { wire := strayStream } } : Reader Unit)
        (List.replicate 13 wholeRead)).any fun s ↦ s.decoded = [.ack 7, sampleFrame 1]) = true := by
    decide +kernel
  obtain ⟨s', hrun, hs'⟩ := (Option.any_eq_true _ _).mp hend
  obtain ⟨-, -, hamong, hunique⟩ := decoded_wellFormed _ strayStream rfl rfl rfl hrun
  exact ⟨s', hrun, of_decide_eq_true hs', hamong, hunique⟩

end Reader

end AsyncMessenger
