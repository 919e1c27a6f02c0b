import AsyncMessenger.Accepting
import AsyncMessenger.Checksum
import AsyncMessenger.Lib.Burst

/-!
# Damaged messages

With both checksums switched on, a message whose bytes behind the tag are hit by a burst of at most
32 bits is not dispatched with another header or with other sections: the reader fails at the header
or at the dispatch, or the burst has hit only what it does not look at, in the footer.

## Why a burst is found

The shift register takes no burst of at most 32 bits to 0 but that of zeros. A section and the
checksum behind it are together a word that the register takes to 0, as they are sent and as they
are accepted; the register is linear, so two such words that differ in a burst are the same
(`eq_of_burst_of_check`).

This holds wherever the burst lies, also across the boundaries of sections and over the checksums
themselves: a burst that is cut down to a section and its checksum is still a burst. Only the flags
of the footer need a thought of their own, since they say whether the data are checked at all. They
lie behind the signature, too far from the data for one burst to hit both.
-/

namespace AsyncMessenger

open ShiftRegister

/-- The checksums of a codec are those of the code. -/
def Codec.Castagnoli (K : Codec) : Prop := ∀ bs, K.crc bs = (Checksum.sctp 0 (.at 0 bs)).toNat

namespace Damage

variable {K : Codec} {flags : CrcFlags}

theorem msb_poly : Checksum.poly.msb = true := by decide

/-- A checksum that is written behind its section. -/
theorem feedAll_eq_load_of_crc (hK : K.Castagnoli) {bs : Bytes} {crc : ℕ} (hlt : crc < 256 ^ 4)
    (h : K.crc bs = crc) : feedAll Checksum.poly 0 bs = load (LittleEndian.encode 4 crc) := by
  have hlt' : crc < 2 ^ 32 := hlt
  apply BitVec.eq_of_toNat_eq
  rw [load, LittleEndian.decode_encode_of_lt hlt, BitVec.toNat_ofNat, Nat.mod_eq_of_lt hlt', ← h, hK,
    Checksum.sctp_eq, Checksum.Data.bytes]

/-- Two sections that go with their checksums and differ in a burst, checksum and all, are the
same. -/
theorem section_eq (hK : K.Castagnoli) {bs bs' : Bytes} {crc crc' : ℕ} (hlen : bs.length = bs'.length)
    (hlt : crc < 256 ^ 4) (hlt' : crc' < 256 ^ 4) (h : K.crc bs = crc) (h' : K.crc bs' = crc')
    (hburst : Burst 32 (diff bs bs' ++ diff (LittleEndian.encode 4 crc) (LittleEndian.encode 4 crc'))) :
    bs = bs' := by
  rw [← diff_append _ _ hlen] at hburst
  have heq := eq_of_burst_of_check (by decide) msb_poly hlen (by simp) (by simp)
    (feedAll_eq_load_of_crc hK hlt h) (feedAll_eq_load_of_crc hK hlt' h') hburst
  exact (List.append_inj heq hlen).1

theorem crcs_of_decodes {id : ℕ} {header : MsgHeader} {footer : MsgFooter} {front middle data : Bytes}
    (h : (Message.decodeMessage K flags id header footer front middle data).isSome) :
    (flags.header = true → K.crc front = footer.frontCrc ∧ K.crc middle = footer.middleCrc) ∧
      (flags.data = true → footer.flags &&& MsgFooter.noCrc = 0 → K.crc data = footer.dataCrc) := by
  rw [Message.decodeMessage] at h
  by_cases hfront : flags.header = true ∧ K.crc front ≠ footer.frontCrc
  · rw [if_pos hfront] at h
    exact absurd h Bool.false_ne_true
  rw [if_neg hfront] at h
  by_cases hmiddle : flags.header = true ∧ K.crc middle ≠ footer.middleCrc
  · rw [if_pos hmiddle] at h
    exact absurd h Bool.false_ne_true
  rw [if_neg hmiddle] at h
  by_cases hdata : flags.data = true ∧ footer.flags &&& MsgFooter.noCrc = 0 ∧ K.crc data ≠ footer.dataCrc
  · rw [if_pos hdata] at h
    exact absurd h Bool.false_ne_true
  refine ⟨fun hflag ↦ ⟨?_, ?_⟩, fun hflag hnoCrc ↦ ?_⟩
  · exact not_not.mp fun hne ↦ hfront ⟨hflag, hne⟩
  · exact not_not.mp fun hne ↦ hmiddle ⟨hflag, hne⟩
  · exact not_not.mp fun hne ↦ hdata ⟨hflag, hnoCrc, hne⟩

/-- A header is what is checked of it and its checksum. -/
theorem bytes_eq_append (h : MsgHeader) : h.bytes = h.bytes.take 49 ++ LittleEndian.encode 4 h.crc := by
  have hbytes : h.bytes = LittleEndian.encodeFields [8, 8, 2, 2, 2, 4, 4, 4, 2, 1, 8, 2, 2]
      [h.seq, h.tid, h.type, h.priority, h.version, h.frontLen, h.middleLen, h.dataLen, h.dataOff,
        h.srcType, h.srcNum, h.compatVersion, h.reserved] ++ LittleEndian.encode 4 h.crc := by
    simp only [MsgHeader.bytes, MsgHeader.layout, MsgHeader.fields, LittleEndian.encodeFields,
      List.append_nil, List.append_assoc]
  rw [hbytes, List.take_left' (by simp [LittleEndian.encodeFields, LittleEndian.length_encode])]

/-- Two headers that pass their check and differ in a burst are the same. -/
theorem header_eq (hK : K.Castagnoli) (hflag : flags.header = true) {h h' : MsgHeader}
    (hok : WireFrame.HeaderOk K flags h) (hok' : WireFrame.HeaderOk K flags h')
    (hburst : Burst 32 (diff h.bytes h'.bytes)) : h = h' := by
  have hcrc (x : MsgHeader) (hx : WireFrame.HeaderOk K flags x) : x.crc < 256 ^ 4 := by
    obtain ⟨-, -, -, -, -, -, -, -, -, -, -, -, -, hlt, -⟩ := hx.1
    exact hlt
  have hlen (x : MsgHeader) : (x.bytes.take 49).length = 49 := by
    rw [List.length_take, Reader.length_headerBytes]
    rfl
  rw [bytes_eq_append h, bytes_eq_append h', diff_append _ _ ((hlen h).trans (hlen h').symm)] at hburst
  have hsame := section_eq hK ((hlen h).trans (hlen h').symm) (hcrc h hok) (hcrc h' hok') (hok.2 hflag)
    (hok'.2 hflag) hburst
  have hchecks : h.crc = h'.crc := by
    rw [← hok.2 hflag, ← hok'.2 hflag, Message.headerCrc, Message.headerCrc, hsame]
  rw [← MsgHeader.ofBytes_bytes hok.1, ← MsgHeader.ofBytes_bytes hok'.1, bytes_eq_append h,
    bytes_eq_append h', hsame, hchecks]

/-- The checksums, the signature and the flags of a footer. -/
theorem footerBytes (f : MsgFooter) : f.bytes = LittleEndian.encode 4 f.frontCrc ++
    (LittleEndian.encode 4 f.middleCrc ++ (LittleEndian.encode 4 f.dataCrc ++
      (LittleEndian.encode 8 f.sig ++ LittleEndian.encode 1 f.flags))) := by
  simp only [MsgFooter.bytes, MsgFooter.layout, MsgFooter.fields, LittleEndian.encodeFields, List.append_nil]

/-- The sections of two messages with one header that differ in a burst, footers and all, are the
same. -/
theorem sections_eq (hK : K.Castagnoli) (hheader : flags.header = true) (hdata : flags.data = true)
    {header : MsgHeader} {footer footer' : MsgFooter} {front front' middle middle' data data' : Bytes}
    (h : WireFrame.Checked K flags header footer front middle data)
    (h' : WireFrame.Checked K flags header footer' front' middle' data')
    (hflags : footer.flags &&& MsgFooter.noCrc = 0)
    (hburst : Burst 32 (diff (front ++ (middle ++ (data ++ footer.bytes)))
      (front' ++ (middle' ++ (data' ++ footer'.bytes))))) :
    front = front' ∧ middle = middle' ∧ data = data' := by
  have hfront := h.frontLen.trans h'.frontLen.symm
  have hmiddle := h.middleLen.trans h'.middleLen.symm
  have hlen := h.dataLen.trans h'.dataLen.symm
  have hcrcs (f : MsgFooter) (hf : LittleEndian.Fits MsgFooter.layout f.fields) :
      f.frontCrc < 256 ^ 4 ∧ f.middleCrc < 256 ^ 4 ∧ f.dataCrc < 256 ^ 4 ∧ f.flags < 256 ^ 1 := by
    obtain ⟨h1, h2, h3, -, h4, -⟩ := hf
    exact ⟨h1, h2, h3, h4⟩
  obtain ⟨hfc, hmc, hdc, hfl⟩ := hcrcs footer h.footerFits
  obtain ⟨hfc', hmc', hdc', hfl'⟩ := hcrcs footer' h'.footerFits
  obtain ⟨id, hdecodes⟩ := h.decodes
  obtain ⟨id', hdecodes'⟩ := h'.decodes
  obtain ⟨hcrc, hdataCrc⟩ := crcs_of_decodes hdecodes
  obtain ⟨hcrc', hdataCrc'⟩ := crcs_of_decodes hdecodes'
  rw [footerBytes, footerBytes, diff_append _ _ hfront, diff_append _ _ hmiddle, diff_append _ _ hlen,
    diff_append _ _ (by simp), diff_append _ _ (by simp), diff_append _ _ (by simp), diff_append _ _ (by simp)]
    at hburst
  refine ⟨section_eq hK hfront hfc hfc' (hcrc hheader).1 (hcrc' hheader).1 ?_,
    section_eq hK hmiddle hmc hmc' (hcrc hheader).2 (hcrc' hheader).2 ?_, ?_⟩
  · have hrest := hburst.squeeze.squeeze
    rw [← List.append_assoc] at hrest
    exact hrest.left
  · have hrest := hburst.right.squeeze.squeeze
    rw [← List.append_assoc] at hrest
    exact hrest.left
  · have hend := hburst.right.right
    by_cases hsame : footer'.flags = footer.flags
    · have hrest := hend.squeeze.squeeze
      rw [← List.append_assoc] at hrest
      exact section_eq hK hlen hdc hdc' (hdataCrc hdata hflags) (hdataCrc' hdata (hsame ▸ hflags)) hrest.left
    · -- the flags are hit, and the rest of the footer is too long for the data to be hit as well
      have hgap : Burst 32 (diff data data' ++ ((diff (LittleEndian.encode 4 footer.frontCrc)
          (LittleEndian.encode 4 footer'.frontCrc) ++ (diff (LittleEndian.encode 4 footer.middleCrc)
          (LittleEndian.encode 4 footer'.middleCrc) ++ (diff (LittleEndian.encode 4 footer.dataCrc)
          (LittleEndian.encode 4 footer'.dataCrc) ++ diff (LittleEndian.encode 8 footer.sig)
          (LittleEndian.encode 8 footer'.sig)))) ++ diff (LittleEndian.encode 1 footer.flags)
          (LittleEndian.encode 1 footer'.flags))) := by
        simpa only [List.append_assoc] using hend
      refine eq_of_decode_diff hlen (hgap.eq_zero_of_gap ?_ fun hzero ↦ hsame ?_)
      · simp [length_diff]
      · have hbytes := eq_of_decode_diff (by simp) hzero
        rw [← LittleEndian.decode_encode_of_lt hfl', ← hbytes, LittleEndian.decode_encode_of_lt hfl]

/-! ## In a stream

A frame that is read where the message was is again a message, since the tag is not hit; its header
is the same, so that its sections have the lengths they had; and then they are compared one by one. -/

theorem accepted_of_sendable {f : WireFrame} (h : f.Sendable K flags) : f.Accepted K flags := by
  cases h with
  | msg m features hheader hfooter hfront hmiddle hdata hknown =>
    have hsound := WireFrame.sound_of_sendable
      (WireFrame.Sendable.msg m features hheader hfooter hfront hmiddle hdata hknown)
    exact ⟨⟨hheader, hsound.headerCrc⟩, hsound.frontLen.symm, hsound.middleLen.symm, hsound.dataLen.symm, hfooter,
      hsound.complete, 0, hsound.decodes 0⟩
  | ack seq h => exact h
  | keepalive2 t h => exact h
  | keepalive2Ack t h => exact h

/-- A frame that is read where a message has been hit is that message, but for its footer. -/
theorem eq_of_hit (hK : K.Castagnoli) (hheader : flags.header = true) (hdata : flags.data = true)
    {header : MsgHeader} {footer : MsgFooter} {front middle data body rest tail : Bytes} {f : WireFrame}
    (h : WireFrame.Checked K flags header footer front middle data)
    (hflags : footer.flags &&& MsgFooter.noCrc = 0) (hf : f.Accepted K flags)
    (hlen : body.length = (WireFrame.msg header footer front middle data).body.length)
    (hburst : Burst 32 (diff (WireFrame.msg header footer front middle data).body body))
    (heq : f.bytes ++ rest = LittleEndian.encode 1 Tag.msg ++ (body ++ tail)) :
    f.content = some (header, front, middle, data) := by
  rw [WireFrame.bytes_eq, List.append_assoc] at heq
  obtain ⟨htag, hbody⟩ := List.append_inj heq (by simp)
  have htags : f.tag = Tag.msg := by
    rw [← WireFrame.decode_tag f, htag]
    rfl
  cases f with
  | msg header' footer' front' middle' data' =>
    have hchecked : WireFrame.Checked K flags header' footer' front' middle' data' := hf
    have hlong : 53 ≤ body.length := by
      rw [hlen, WireFrame.body, List.length_append, Reader.length_headerBytes]
      exact Nat.le_add_right ..
    -- the header is hit by a part of the burst
    obtain ⟨start, after, rfl, hstart⟩ : ∃ start after, body = start ++ after ∧ start.length = 53 :=
      ⟨body.take 53, body.drop 53, (List.take_append_drop 53 body).symm, by rw [List.length_take]; omega⟩
    rw [WireFrame.body, List.append_assoc header'.bytes, List.append_assoc start] at hbody
    obtain ⟨rfl, hsections⟩ := List.append_inj hbody ((Reader.length_headerBytes header').trans hstart.symm)
    rw [WireFrame.body, diff_append _ _ ((Reader.length_headerBytes header).trans hstart.symm)] at hburst
    obtain rfl := header_eq hK hheader h.headerOk hchecked.headerOk hburst.left
    -- so the sections have the lengths they had
    rw [WireFrame.body, List.length_append, List.length_append, Nat.add_left_cancel_iff] at hlen
    have hsame : (front' ++ (middle' ++ (data' ++ footer'.bytes))).length = after.length := by
      rw [hlen]
      simp only [List.length_append, hchecked.frontLen, hchecked.middleLen, hchecked.dataLen, h.frontLen,
        h.middleLen, h.dataLen, Reader.length_footerBytes]
    obtain ⟨rfl, -⟩ := List.append_inj hsections hsame
    obtain ⟨rfl, rfl, rfl⟩ := sections_eq hK hheader hdata h hchecked hflags hburst.right
    rfl
  | _ => exact absurd htags (of_decide_eq_false rfl)

/-- **No damaged message is dispatched.** A message is sent behind `good` frames, and a burst of at
most 32 bits hits the stream somewhere behind its tag. In every run that has not failed, what has
been read is a part of the good frames, or the message has been read with the header and the
sections it had. -/
theorem undamaged_of_run {β : Type} {maxPrefetch page : ℕ} (hK : K.Castagnoli)
    (hheader : flags.header = true)
    (hdata : flags.data = true) (s : Reader β) (good : List WireFrame) (m : Message) (features : ℕ)
    (body tail : Bytes) (hgood : ∀ f ∈ good, f.Sendable K flags)
    (hm : (WireFrame.ofMessage (m.encode K flags features)).Sendable K flags)
    (hlen : body.length = (WireFrame.ofMessage (m.encode K flags features)).body.length)
    (hburst : Burst 32 (diff (WireFrame.ofMessage (m.encode K flags features)).body body))
    (hstate : s.conn.state = .opened)
    (hrecv : s.recv = { wire := WireFrame.stream good ++ (LittleEndian.encode 1 Tag.msg ++ (body ++ tail)) })
    (hdecoded : s.decoded = []) {turns : List Reader.Turn} {s' : Reader β}
    (hrun : Run.exec (Reader.turn K flags maxPrefetch page) s turns = some s') :
    s'.decoded <+: good ∨ ∃ f more, s'.decoded = good ++ f :: more ∧
      f.content = some (m.encode K flags features).content := by
  have h : Reader.Parsed K flags _ s.conn.delivered s' :=
    Run.invariant (fun _ _ _ h ht ↦ h.turn ht) (Reader.parsed_start hstate hrecv hdecoded) hrun
  have hchecked := accepted_of_sendable hm
  have hflags : (m.encode K flags features).footer.flags &&& MsgFooter.noCrc = 0 := by
    simp [Message.encode, hdata, MsgFooter.complete, MsgFooter.noCrc]
  obtain ⟨bs, -, hstream⟩ := h.took
  rcases WireFrame.prefix_or_prefix h.accepted (fun f hf ↦ accepted_of_sendable (hgood f hf)) hstream with
    ⟨more, heq, -⟩ | ⟨more, heq, hrest⟩
  · exact Or.inl ⟨more, heq.symm⟩
  · cases more with
    | nil => exact Or.inl ⟨[], by rw [heq, List.append_nil, List.append_nil]⟩
    | cons f more =>
      right
      have hf : f.Accepted K flags := h.accepted f (heq ▸ List.mem_append_right good List.mem_cons_self)
      rw [WireFrame.stream_cons, List.append_assoc] at hrest
      exact ⟨f, more, heq, eq_of_hit hK hheader hdata hchecked hflags hf hlen hburst hrest.symm⟩

/-- A codec with one type of message and the checksum of the code. -/
def summing : Codec := { Reader.oneType with crc := fun bs ↦ (Checksum.sctp 0 (.at 0 bs)).toNat }

/-- The sample message, and what follows its tag when two bits of its front are hit. -/
def sample : WireFrame := .ofMessage ((Reader.sampleMessage 1).encode summing Reader.bothCrcs 0)

def hitBody : Bytes := sample.body.modify 53 (· ^^^ 129)

/-- The message arrives behind an ACK and is read up to its dispatch, which fails. -/
theorem undamaged_of_run_hit :
    ∃ s' : Reader Unit, Run.exec (Reader.turn summing Reader.bothCrcs 4096 4096) {
        conn := { state := .opened }
        recv := { wire := WireFrame.stream [.ack 7] ++ (LittleEndian.encode 1 Tag.msg ++ (hitBody ++ [])) } }
        (List.replicate 12 Reader.wholeRead) = some s' ∧ s'.conn.state = .openMessageDispatch ∧
      s'.turn summing Reader.bothCrcs 4096 4096 Reader.wholeRead = none ∧
      (s'.decoded <+: [.ack 7] ∨ ∃ f more, s'.decoded = [.ack 7] ++ f :: more ∧
        f.content = some ((Reader.sampleMessage 1).encode summing Reader.bothCrcs 0).content) := by
  have hend : ((Run.exec (Reader.turn summing Reader.bothCrcs 4096 4096) ({
      conn := { state := .opened }
      recv := { wire := WireFrame.stream [.ack 7] ++ (LittleEndian.encode 1 Tag.msg ++ (hitBody ++ [])) } } :
        Reader Unit) (List.replicate 12 Reader.wholeRead)).any fun s ↦
          s.conn.state = .openMessageDispatch ∧
            (s.turn summing Reader.bothCrcs 4096 4096 Reader.wholeRead).isNone) = true := by
    decide +kernel
  obtain ⟨s', hrun, hs'⟩ := (Option.any_eq_true _ _).mp hend
  obtain ⟨hstate, hfails⟩ := of_decide_eq_true hs'
  have hack : ∀ f ∈ [WireFrame.ack 7], f.Sendable summing Reader.bothCrcs := by
    rintro f hf
    rw [List.mem_singleton.mp hf]
    exact .ack 7 (by decide)
  have hmessage : sample.Sendable summing Reader.bothCrcs :=
    .msg (Reader.sampleMessage 1) 0 (by decide +kernel) (by decide +kernel) (by decide +kernel)
      (by decide +kernel) (by decide +kernel) ⟨1, rfl, Or.inr (by decide +kernel), fun _ ↦ rfl⟩
  refine ⟨s', hrun, hstate, Option.isNone_iff_eq_none.mp hfails, ?_⟩
  exact undamaged_of_run (fun _ ↦ rfl) rfl rfl _ [.ack 7] (Reader.sampleMessage 1) 0 hitBody [] hack hmessage
    (by decide +kernel) ⟨129, 8 * 53, by decide, by decide +kernel⟩ rfl rfl rfl hrun

end Damage

end AsyncMessenger
